import ShaderGraph.Color.Model
import ShaderGraph.Glsl.Upgrade
import ShaderGraph.Main
import ShaderGraph.Render.Trace
import ShaderGraph.Shape.Builders
import ShaderGraph.Proofs.Folding
import ShaderGraph.Proofs.TypeSoundness
import ShaderGraph.Proofs.Siblings
import ShaderGraph.Proofs.Registration
import ShaderGraph.Proofs.Delivery
import ShaderGraph.Proofs.Uniformity
import ShaderGraph.Proofs.Cameras
import ShaderGraph.Proofs.Interface
import ShaderGraph.Proofs.Breaks
import ShaderGraph.Proofs.Visibility
import ShaderGraph.Proofs.Sums
import ShaderGraph.Proofs.Arithmetic
import ShaderGraph.Proofs.Parameters
import ShaderGraph.Proofs.Reevaluation
import ShaderGraph.Proofs.Schedule
import ShaderGraph.Proofs.Assignments
import ShaderGraph.Proofs.Dimensions
import ShaderGraph.Proofs.Arrays
import ShaderGraph.Proofs.Flips
import ShaderGraph.Proofs.Nesting
import ShaderGraph.Proofs.Swizzles
import ShaderGraph.Proofs.Uploads
