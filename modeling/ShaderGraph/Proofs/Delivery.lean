import Mathlib
import ShaderGraph.Viewer.Watch

/-!
# Delivery of parameter values

The sender of a watch reads the file, takes out of the mailbox what the receiver has left there and
puts the new values, one step at a time; the receiver and whoever writes the file may come in
between. Main statement: the receiver gets the values in the order in which they were read, each at
most once, and never misses the newest ones.
-/

namespace ShaderGraph

open List

variable {w : Watch} {r : Log.Record} {updates : List ParamUpdate}

/-! ## Mailboxes -/

namespace Mailbox

variable {α : Type} {m : Mailbox α} {sent received : List α}

/-- What the sender has got to send so far against what the receiver has got. -/
inductive Keeps : Mailbox α → List α → List α → Prop where
  /-- What was received and what waits were sent in this order, and end with the newest value. -/
  | idle {pending : Option α} {sent received : List α} :
      (received ++ pending.toList).Sublist sent →
      (received ++ pending.toList).getLast? = sent.getLast? → Keeps ⟨pending, .idle⟩ sent received
  | clearing {pending : Option α} {older received : List α} {a : α} :
      (received ++ pending.toList).Sublist older → Keeps ⟨pending, .clearing a⟩ (older ++ [a]) received
  /-- Nothing waits while there is a value to put. -/
  | putting {older received : List α} {a : α} :
      received.Sublist older → Keeps ⟨none, .putting a⟩ (older ++ [a]) received

namespace Keeps
variable (h : m.Keeps sent received)
include h

theorem offer (hidle : m.sender = .idle) (a : α) : (m.offer a).Keeps (sent ++ [a]) received := by
  cases h with
  | idle hsub _ => exact .clearing hsub
  | clearing => cases hidle
  | putting => cases hidle

theorem clear : m.clear.Keeps sent received := by
  cases h with
  | idle hsub hlast => exact .idle hsub hlast
  | clearing hsub => exact .putting ((sublist_append_left _ _).trans hsub)
  | putting hsub => exact .putting hsub

theorem put {m' : Mailbox α} (hput : m.put? = some m') : m'.Keeps sent received := by
  cases h with
  | idle => cases hput
  | clearing => cases hput
  | putting hsub =>
    cases hput
    refine .idle (Sublist.append hsub (Sublist.refl _)) ?_
    simp

theorem take : m.take.2.Keeps sent (received ++ m.take.1.toList) := by
  cases h with
  | idle hsub hlast => exact .idle (by simpa [Mailbox.take] using hsub) (by simpa [Mailbox.take] using hlast)
  | clearing hsub => exact .clearing (by simpa [Mailbox.take] using hsub)
  | putting hsub => exact .putting (by simpa [Mailbox.take] using hsub)

theorem sublist : received.Sublist sent := by
  cases h with
  | idle hsub _ => exact (sublist_append_left _ _).trans hsub
  | clearing hsub =>
    have hwaiting := (sublist_append_left _ _).trans hsub
    exact hwaiting.trans (sublist_append_left _ _)
  | putting hsub => exact hsub.trans (sublist_append_left _ _)

theorem room {a : α} (hputting : m.sender = .putting a) : m.put? = some ⟨some a, .idle⟩ := by
  cases h with
  | idle => cases hputting
  | clearing => cases hputting
  | putting => cases hputting; rfl

theorem newest (hidle : m.sender = .idle) (hsent : sent ≠ []) :
    ∃ older a, sent = older ++ [a] ∧
      (m.pending = none ∧ (∃ before, received = before ++ [a] ∧ before.Sublist older) ∨
        m.pending = some a ∧ received.Sublist older) := by
  cases h with
  | clearing => cases hidle
  | putting => cases hidle
  | @idle pending _ _ hsub hlast =>
    obtain ⟨older, a, rfl⟩ := (eq_nil_or_concat' sent).resolve_left hsent
    refine ⟨older, a, rfl, ?_⟩
    rw [getLast?_concat] at hlast
    cases pending with
    | none =>
      rw [Option.toList_none, append_nil] at hsub hlast
      obtain ⟨before, rfl⟩ := getLast?_eq_some_iff.mp hlast
      exact .inl ⟨rfl, before, rfl, by simpa using hsub⟩
    | some b =>
      obtain rfl : b = a := by simpa using hlast
      exact .inr ⟨rfl, by simpa using hsub⟩

end Keeps

end Mailbox

/-! ## The sender of a watch -/

namespace Viewer

namespace Watch

def contents (w : Watch) : Except Log.Record (List ParamUpdate) :=
  match w.directory.readAt w.place with
  | .error fault =>
    let e : FileError := { path := w.path, fault }
    .error ⟨.warn, "reading params", [("err", .text e.readMessage)]⟩
  | .ok text => (parseParams text).mapError fun e =>
    ⟨.warn, "parsing params", [("file", .text w.path), ("err", .text e.message)]⟩

def notice (w : Watch) : Watch :=
  match w.contents with
  | .error r => { w with log := w.log ++ [r] }
  | .ok updates => { w with mailbox := w.mailbox.offer updates }

theorem notice_of_error (h : w.contents = .error r) : w.notice = { w with log := w.log ++ [r] } := by rw [notice, h]

theorem notice_of_ok (h : w.contents = .ok updates) :
    w.notice = { w with mailbox := w.mailbox.offer updates } := by rw [notice, h]

theorem reload_eq (w : Watch) :
    w.reload = match w.contents with
      | .error r => { w with log := w.log ++ [r] }
      | .ok updates => { w with mailbox := w.mailbox.send updates } := by
  unfold reload contents
  cases w.directory.readAt w.place with
  | error fault => rfl
  | ok text =>
    dsimp only
    cases parseParams text <;> rfl

theorem reload_of_error (h : w.contents = .error r) : w.reload = w.notice := by rw [reload_eq, notice, h]

end Watch

/-! ## Runs -/

/-- A watch, with what its file has said so far and what the receiver has got. -/
structure Exchange where
  watch : Watch
  parsed : List (List ParamUpdate) := []
  received : List (List ParamUpdate) := []

namespace Exchange

def mailbox (x : Exchange) : Mailbox (List ParamUpdate) := x.watch.mailbox

def withMailbox (x : Exchange) (m : Mailbox (List ParamUpdate)) : Exchange :=
  { x with watch := { x.watch with mailbox := m } }

inductive Step : Exchange → Exchange → Prop where
  /-- Files are written, replaced or removed. -/
  | edit (x : Exchange) (d : Directory) : Step x { x with watch := { x.watch with directory := d } }
  | say (x : Exchange) (level : Log.Level) (message : String) (fields : List (String × Log.Value)) :
      Step x { x with watch := x.watch.say level message fields }
  | notice (x : Exchange) : x.mailbox.sender = .idle →
      Step x { x with watch := x.watch.notice, parsed := x.parsed ++ x.watch.contents.toOption.toList }
  | clear (x : Exchange) : Step x (x.withMailbox x.mailbox.clear)
  | put (x : Exchange) {m : Mailbox (List ParamUpdate)} : x.mailbox.put? = some m →
      Step x (x.withMailbox m)
  | take (x : Exchange) :
      Step x { x with watch := x.watch.take.2, received := x.received ++ x.watch.take.1.1.toList }

/-- A file that can be read gives the sender values to send. -/
theorem Step.read {x : Exchange} (hidle : x.mailbox.sender = .idle) (h : x.watch.contents = .ok updates) :
    Step x { x.withMailbox (x.mailbox.offer updates) with parsed := x.parsed ++ [updates] } := by
  have hstep := Step.notice x hidle
  rw [Watch.notice_of_ok h, h] at hstep
  exact hstep

/-- What can come of a file that is watched. -/
inductive Reachable : Exchange → Prop where
  | start (directory : Directory) (place : Place) : Reachable { watch := { directory, place } }
  | step {x y : Exchange} : Reachable x → Step x y → Reachable y

theorem Step.keeps {x y : Exchange} (hstep : Step x y) (h : x.mailbox.Keeps x.parsed x.received) :
    y.mailbox.Keeps y.parsed y.received := by
  cases hstep with
  | edit d => exact h
  | say level message fields => exact h
  | clear => exact h.clear
  | put hput => exact h.put hput
  | take => exact h.take
  | notice hidle =>
    cases hc : x.watch.contents with
    | error r =>
      rw [Watch.notice_of_error hc]
      show x.mailbox.Keeps (x.parsed ++ []) x.received
      rw [append_nil]
      exact h
    | ok updates =>
      rw [Watch.notice_of_ok hc]
      exact h.offer hidle updates

theorem Reachable.keeps {x : Exchange} (h : x.Reachable) : x.mailbox.Keeps x.parsed x.received := by
  induction h with
  | start directory place => exact .idle (Sublist.refl _) rfl
  | step _ hstep ih => exact hstep.keeps ih

/-- To reload a file is a run of the sender that nobody interrupts. -/
theorem Reachable.reload {x : Exchange} (h : x.Reachable) (hidle : x.mailbox.sender = .idle) :
    ∃ y : Exchange, y.Reachable ∧ y.watch = x.watch.reload ∧ y.received = x.received := by
  cases hc : x.watch.contents with
  | error r => exact ⟨_, h.step (.notice x hidle), (Watch.reload_of_error hc).symm, rfl⟩
  | ok updates =>
    have hcleared := (h.step (.read hidle hc)).step (.clear _)
    refine ⟨_, hcleared.step (.put _ rfl), ?_, rfl⟩
    rw [Watch.reload_eq, hc]
    rfl

/-- However the sender, the receiver and the writers of the file take turns, the sender finds room
for what it puts, the receiver gets what was read in order and each time at most once, a file that
cannot be read or parsed leaves the mailbox alone, and once the sender is idle the newest values wait
or were the last to be received. -/
theorem newest_values_delivered {x : Exchange} (h : x.Reachable) :
    (∀ updates, x.mailbox.sender = .putting updates → x.mailbox.put? = some ⟨some updates, .idle⟩) ∧
    x.received.Sublist x.parsed ∧
    (∀ r, x.watch.contents = .error r →
      x.watch.notice.mailbox = x.mailbox ∧ x.watch.reload.mailbox = x.mailbox) ∧
    (x.mailbox.sender = .idle → x.parsed ≠ [] → ∃ older newest, x.parsed = older ++ [newest] ∧
      (x.mailbox.pending = none ∧ (∃ before, x.received = before ++ [newest] ∧ before.Sublist older) ∨
        x.mailbox.pending = some newest ∧ x.received.Sublist older)) ∧
    (x.mailbox.sender = .idle →
      ∃ y : Exchange, y.Reachable ∧ y.watch = x.watch.reload ∧ y.received = x.received) := by
  refine ⟨fun _ => h.keeps.room, h.keeps.sublist, ?_, h.keeps.newest, h.reload⟩
  intro r hr
  rw [Watch.reload_of_error hr, Watch.notice_of_error hr]
  exact ⟨rfl, rfl⟩

def folderOf (text : String) : Directory := { path := "/", files := [(.ofPath "p", text)] }

def watchOf (text : String) (m : Mailbox (List ParamUpdate)) : Watch :=
  { directory := folderOf text, place := .ofPath "p", mailbox := m }

/-- A file is read, and written and read again. The receiver comes for the old values before the
sender can take them out, and leaves the new ones. -/
def overtaken : Exchange where
  watch := watchOf "b=[]" ⟨some [⟨"b", []⟩], .idle⟩
  parsed := [[⟨"a", []⟩], [⟨"b", []⟩]]
  received := [[⟨"a", []⟩]]

theorem overtaken_reachable : overtaken.Reachable := by
  have ha (m) : (watchOf "a=[]" m).contents = .ok [⟨"a", []⟩] := by cbv
  have hb (m) : (watchOf "b=[]" m).contents = .ok [⟨"b", []⟩] := by cbv
  have hold := (Reachable.start (folderOf "a=[]") (.ofPath "p")).step (.read rfl (ha {}))
  have hsent := (hold.step (.clear _)).step (.put _ rfl)
  have hnew := (hsent.step (.edit _ (folderOf "b=[]"))).step (.read rfl (hb _))
  exact ((hnew.step (.take _)).step (.clear _)).step (.put _ rfl)

theorem newest_values_delivered_overtaken :
    overtaken.Reachable ∧ overtaken.received.Sublist overtaken.parsed ∧
      ∃ older newest, overtaken.parsed = older ++ [newest] ∧
        (overtaken.mailbox.pending = none ∧
            (∃ before, overtaken.received = before ++ [newest] ∧ before.Sublist older) ∨
          overtaken.mailbox.pending = some newest ∧ overtaken.received.Sublist older) := by
  obtain ⟨-, hsublist, -, hnewest, -⟩ := newest_values_delivered overtaken_reachable
  exact ⟨overtaken_reachable, hsublist, hnewest rfl (by simp [overtaken])⟩

end Exchange

end Viewer

end ShaderGraph
