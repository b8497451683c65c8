/-
  McpVenusOs.Lib.Machine

  Deterministic event machines with outputs.  An event is either not enabled
  in a state (`none`) or yields the next state and the outputs of the step; a
  schedule is a list of events, so every nondeterministic choice (which thread
  moves, what the environment answers) is part of the event.

  `Path ok s es log s'` is a run segment every step of which meets the
  condition `ok`; `Run` is the unconditional run from the initial state.  The
  one induction every safety proof needs is `Path.induct`; `exec` is the same
  semantics as a function, for evaluating concrete schedules.
-/

import Mathlib.Logic.Basic

namespace Machine

/-- A state space with an initial state and a partial, deterministic step. -/
structure System (σ ε ω : Type) where
  init : σ
  step : σ → ε → Option (σ × List ω)

variable {σ ε ω : Type} {m : System σ ε ω} {ok ok' : σ → ε → Prop}

/-- A run segment from `s`: its events, its outputs and the state it reaches.
    Every step meets `ok` in the state it is taken in. -/
inductive Path (m : System σ ε ω) (ok : σ → ε → Prop) (s : σ) : List ε → List ω → σ → Prop
  | refl : Path m ok s [] [] s
  | snoc {es log s₁ e s₂ out} : Path m ok s es log s₁ → ok s₁ e →
      m.step s₁ e = some (s₂, out) → Path m ok s (es ++ [e]) (log ++ out) s₂

/-- A run from the initial state, without a condition on its steps. -/
abbrev Run (m : System σ ε ω) : List ε → List ω → σ → Prop :=
  Path m (fun _ _ => True) m.init

/-! ## Composition -/

theorem Path.single {s s' : σ} {e : ε} {out : List ω} (hok : ok s e)
    (h : m.step s e = some (s', out)) : Path m ok s [e] out s' := by
  simpa using Path.snoc .refl hok h

theorem Path.trans {s₀ s₁ s₂ : σ} {es es' : List ε} {log log' : List ω}
    (h : Path m ok s₀ es log s₁) (h' : Path m ok s₁ es' log' s₂) :
    Path m ok s₀ (es ++ es') (log ++ log') s₂ := by
  induction h' with
  | refl => simpa using h
  | snoc _ hok hstep ih =>
      rw [← List.append_assoc, ← List.append_assoc]
      exact .snoc ih hok hstep

/-- A weaker condition on the steps admits the same segment. -/
theorem Path.mono {s s' : σ} {es : List ε} {log : List ω}
    (h : Path m ok s es log s') (himp : ∀ s e, ok s e → ok' s e) :
    Path m ok' s es log s' := by
  induction h with
  | refl => exact .refl
  | snoc _ hok hstep ih => exact .snoc ih (himp _ _ hok) hstep

theorem Path.toRun {s : σ} {es : List ε} {log : List ω}
    (h : Path m ok m.init es log s) : Run m es log s :=
  h.mono fun _ _ _ => trivial

/-! ## The induction rule -/

/-- What holds at the start and is preserved by every step that meets the
    condition holds, of the outputs so far and the state, all along a segment. -/
theorem Path.induct {s₀ : σ} {P : List ω → σ → Prop} (hinit : P [] s₀)
    (hstep : ∀ log s e s' out, P log s → ok s e → m.step s e = some (s', out) →
      P (log ++ out) s')
    {es : List ε} {log : List ω} {s : σ} (h : Path m ok s₀ es log s) : P log s := by
  induction h with
  | refl => exact hinit
  | snoc _ hok hs ih => exact hstep _ _ _ _ _ ih hok hs

/-- `Path.induct` for an invariant of the state alone. -/
theorem Path.invariant {s₀ : σ} {P : σ → Prop} (hinit : P s₀)
    (hstep : ∀ s e s' out, P s → ok s e → m.step s e = some (s', out) → P s')
    {es : List ε} {log : List ω} {s : σ} (h : Path m ok s₀ es log s) : P s :=
  h.induct (P := fun _ => P) hinit fun _ s e s' out hP hok hs => hstep s e s' out hP hok hs

/-! ## Execution -/

/-- Run a schedule; `none` when one of its events is not enabled. -/
def System.exec (m : System σ ε ω) : σ → List ε → Option (σ × List ω)
  | s, [] => some (s, [])
  | s, e :: es =>
    match m.step s e with
    | none => none
    | some (s', out) =>
      match m.exec s' es with
      | none => none
      | some (s'', log) => some (s'', out ++ log)

/-- An executed schedule is a run segment. -/
theorem path_of_exec {s s' : σ} {es : List ε} {log : List ω}
    (h : m.exec s es = some (s', log)) : Path m (fun _ _ => True) s es log s' := by
  induction es generalizing s log with
  | nil =>
      simp only [System.exec, Option.some.injEq, Prod.mk.injEq] at h
      obtain ⟨rfl, rfl⟩ := h
      exact .refl
  | cons e es ih =>
      simp only [System.exec] at h
      split at h
      · simp at h
      · rename_i s₁ out hstep
        split at h
        · simp at h
        · rename_i s₂ log' hexec
          simp only [Option.some.injEq, Prod.mk.injEq] at h
          obtain ⟨rfl, rfl⟩ := h
          exact (Path.single trivial hstep).trans (ih hexec)

/-- A run segment is what its schedule executes to. -/
theorem Path.exec_eq {s s' : σ} {es : List ε} {log : List ω}
    (h : Path m ok s es log s') : m.exec s es = some (s', log) := by
  -- one more event at the end
  have hsnoc : ∀ (es : List ε) (s : σ) (log : List ω) (s₁ : σ) (e : ε) (s₂ : σ) (out : List ω),
      m.exec s es = some (s₁, log) → m.step s₁ e = some (s₂, out) →
      m.exec s (es ++ [e]) = some (s₂, log ++ out) := by
    intro es
    induction es with
    | nil =>
        intro s log s₁ e s₂ out h hstep
        simp only [System.exec, Option.some.injEq, Prod.mk.injEq] at h
        obtain ⟨rfl, rfl⟩ := h
        simp [System.exec, hstep]
    | cons e' es ih =>
        intro s log s₁ e s₂ out h hstep
        simp only [System.exec] at h
        split at h
        · simp at h
        · rename_i s' out' hs'
          split at h
          · simp at h
          · rename_i s'' log' hexec
            simp only [Option.some.injEq, Prod.mk.injEq] at h
            obtain ⟨rfl, rfl⟩ := h
            simp [System.exec, hs', ih _ _ _ _ _ _ hexec hstep]
  induction h with
  | refl => rfl
  | snoc _ _ hstep ih => exact hsnoc _ _ _ _ _ _ _ ih hstep

/-! ## Conditions on the steps -/

/-- The machine that takes only the steps that meet a condition. -/
def System.restrict (m : System σ ε ω) (ok : σ → ε → Bool) : System σ ε ω where
  init := m.init
  step s e := if ok s e then m.step s e else none

theorem Path.of_restrict {ok : σ → ε → Bool} {s s' : σ} {es : List ε} {log : List ω}
    (h : Path (m.restrict ok) (fun _ _ => True) s es log s') :
    Path m (fun s e => ok s e = true) s es log s' := by
  induction h with
  | refl => exact .refl
  | snoc _ _ hstep ih =>
      simp only [System.restrict] at hstep
      split at hstep
      · rename_i hok
        exact .snoc ih hok hstep
      · cases hstep

/-! ## Deleting events -/

/-- The schedule without the events that `drop` selects in the state they are
    taken in. -/
def System.strip (m : System σ ε ω) (drop : σ → ε → Bool) : σ → List ε → List ε
  | _, [] => []
  | s, e :: es =>
    let rest := match m.step s e with
      | none => es
      | some (s', _) => m.strip drop s' es
    if drop s e then rest else e :: rest

/-- Deleting events that do nothing changes neither the state that is reached
    nor the outputs. -/
theorem System.exec_strip {drop : σ → ε → Bool}
    (hdrop : ∀ s e, drop s e = true → m.step s e = some (s, [])) {s : σ} {es : List ε}
    {r : σ × List ω} (h : m.exec s es = some r) : m.exec s (m.strip drop s es) = some r := by
  induction es generalizing s r with
  | nil => exact h
  | cons e es ih =>
      simp only [System.exec] at h
      split at h
      · cases h
      · rename_i s₁ out hstep
        split at h
        · cases h
        · rename_i s₂ log hexec
          cases h
          have hrest := ih hexec
          simp only [System.strip, hstep]
          split
          · rename_i hd
            obtain ⟨rfl, rfl⟩ := Prod.mk.inj (Option.some.inj (hstep.symm.trans (hdrop s e hd)))
            exact hrest
          · simp [System.exec, hstep, hrest]

end Machine
