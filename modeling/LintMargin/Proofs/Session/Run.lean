import LintMargin.Session.Events

/-!
# Runs

A run is a list of acts: what the editor tells a session, what the user asks of it, and what changes
around it between two of these. Services answer as they like; the state of what stands behind them may be
replaced at any time, and so may everything in the editor that a session only reads.
-/

namespace LintMargin

universe u

/-- What the user has open, where the focus is and where the cursors are. -/
structure Desk where
  documents : SortedMap DocumentId Document
  active : Option DocumentId
  cursors : SortedMap DocumentId Position

/-- Opening, closing, focusing and editing documents and moving cursors all end with some other desk. -/
def Editor.arrange (e : Editor) (desk : Desk) : Editor :=
  { e with documents := desk.documents, active := desk.active, cursors := desk.cursors }

inductive Act (σ : Type u) where
  | opened (doc : DocumentId) (now : Nat)
  | activated (doc : DocumentId)
  | closed (doc : DocumentId)
  | edited (doc : DocumentId) (now : Nat)
  | saved (doc : DocumentId) (now : Nat)
  | scrolled (doc : DocumentId) (now : Nat)
  | cursorMoved (doc : DocumentId) (now : Nat)
  | reconfigured (settings : Settings)
  | ticked (now : Nat)
  | askedToLint
  | passed (doc : DocumentId)
  | wentToNext
  | wentToDisplayed
  /-- The user did something that the session was not told about yet. -/
  | arranged (desk : Desk)
  /-- Files or linters changed. -/
  | served (services : σ)

namespace Session

variable {σ : Type u}

def act (sv : Services σ) (s : Session σ) : Act σ → Session σ
  | .opened doc now => s.opened doc now
  | .activated doc => (s.activated sv doc).2
  | .closed doc => s.closed doc
  | .edited doc now => s.edited doc now
  | .saved doc now => s.saved doc now
  | .scrolled doc now => s.scrolled doc now
  | .cursorMoved doc now => s.cursorMoved doc now
  | .reconfigured settings => (s.reconfigure sv settings).2
  | .ticked now => (s.tick sv now).2
  | .askedToLint => (s.lintNow sv).2
  | .passed doc => (s.runPass sv doc).2
  | .wentToNext => s.goToNext.2
  | .wentToDisplayed => s.goToDisplayed.2
  | .arranged desk => { s with editor := s.editor.arrange desk }
  | .served services => { s with services }

/-- The session after some acts. -/
def run (sv : Services σ) (s : Session σ) (acts : List (Act σ)) : Session σ :=
  acts.foldl (act sv) s

@[simp] theorem run_nil (sv : Services σ) (s : Session σ) : s.run sv [] = s := rfl

theorem run_append (sv : Services σ) (s : Session σ) (acts later : List (Act σ)) :
    s.run sv (acts ++ later) = (s.run sv acts).run sv later :=
  List.foldl_append

@[simp] theorem run_concat (sv : Services σ) (s : Session σ) (acts : List (Act σ)) (a : Act σ) :
    s.run sv (acts ++ [a]) = (s.run sv acts).act sv a := by
  rw [run_append]
  rfl

/-- What holds at first and is kept by every act holds after every run. -/
theorem run_induction {sv : Services σ} {s : Session σ} (P : Session σ → Prop) (hstart : P s)
    (hact : ∀ t a, P t → P (t.act sv a)) (acts : List (Act σ)) : P (s.run sv acts) := by
  induction acts generalizing s with
  | nil => exact hstart
  | cons a rest ih => exact ih (hact s a hstart)

/-- A session that began in a fresh editor, after some run. -/
def Reachable (sv : Services σ) (s : Session σ) : Prop :=
  ∃ manner status services settings acts,
    s = (start (.fresh manner status) services settings).run sv acts

theorem Reachable.act {sv : Services σ} {s : Session σ} (h : Reachable sv s) (a : Act σ) :
    Reachable sv (s.act sv a) := by
  obtain ⟨manner, status, services, settings, acts, rfl⟩ := h
  exact ⟨manner, status, services, settings, acts ++ [a], by rw [run_concat]⟩

end Session

end LintMargin
