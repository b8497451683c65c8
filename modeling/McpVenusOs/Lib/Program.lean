/-
  McpVenusOs.Lib.Program

  Programs over a signature of atomic operations, and their interleaving.

  A `Program` is a tree: it returns, raises, or performs one operation and goes
  on with its response.  Responses are arbitrary, so whatever is proved of all
  branches of the tree holds in every environment.  `wp I Q h p` is the
  history-sensitive weakest precondition: started after the operations `h`,
  every operation `p` performs meets `I` and every outcome meets `Q`, each of
  them seeing the operations performed up to there.

  `Pool` interleaves any number of such programs, one operation at a time, with
  an environment that changes the shared world in between.  What `wp` gives for
  one program alone holds of every operation and every outcome in every
  interleaving (`Pool.meets_of_wp`).
-/

import McpVenusOs.Lib.Machine

/-- A program over operations `Op` with responses `Resp`, exceptions `E` and
    results `α`. -/
inductive Program (Op : Type) (Resp : Op → Type) (E α : Type) : Type
  | ret (a : α)
  | raise (e : E)
  | op (o : Op) (k : Resp o → Program Op Resp E α)

namespace Program

variable {Op : Type} {Resp : Op → Type} {E α β : Type}

/-- The operations performed so far, in order, with their responses. -/
abbrev Trace (Op : Type) (Resp : Op → Type) : Type := List ((o : Op) × Resp o)

def bind : Program Op Resp E α → (α → Program Op Resp E β) → Program Op Resp E β
  | .ret a, f => f a
  | .raise e, _ => .raise e
  | .op o k, f => .op o fun r => (k r).bind f

instance : Monad (Program Op Resp E) where
  pure := .ret
  bind := .bind

/-- How a program that performs no further operation ends. -/
def outcome : Program Op Resp E α → Option (Except E α)
  | .ret a => some (.ok a)
  | .raise e => some (.error e)
  | .op _ _ => none

/-- Perform one operation and return its response. -/
def perform (o : Op) : Program Op Resp E (Resp o) := .op o .ret

/-! ## Weakest preconditions -/

/-- Started after `h`, every operation of the program meets `I` and every
    outcome meets `Q`. -/
def wp (I : Trace Op Resp → Op → Prop) (Q : Trace Op Resp → Except E α → Prop) :
    Trace Op Resp → Program Op Resp E α → Prop
  | h, .ret a => Q h (.ok a)
  | h, .raise e => Q h (.error e)
  | h, .op o k => I h o ∧ ∀ r, wp I Q (h ++ [⟨o, r⟩]) (k r)

variable {I I' : Trace Op Resp → Op → Prop} {Q Q' : Trace Op Resp → Except E α → Prop}
  {h : Trace Op Resp}

@[simp] theorem wp_ret (a : α) : wp I Q h (.ret a) ↔ Q h (.ok a) := Iff.rfl

@[simp] theorem wp_pure (a : α) :
    wp I Q h (pure a : Program Op Resp E α) ↔ Q h (.ok a) := Iff.rfl

@[simp] theorem wp_raise (e : E) :
    wp I Q h (.raise e : Program Op Resp E α) ↔ Q h (.error e) := Iff.rfl

theorem wp_outcome {p : Program Op Resp E α} {r : Except E α} (hp : p.outcome = some r)
    (hwp : wp I Q h p) : Q h r := by
  cases p with
  | ret a => cases hp; exact hwp
  | raise e => cases hp; exact hwp
  | op o k => cases hp

theorem wp_op (o : Op) (k : Resp o → Program Op Resp E α) :
    wp I Q h (.op o k) ↔ I h o ∧ ∀ r, wp I Q (h ++ [⟨o, r⟩]) (k r) := Iff.rfl

/-- What a sequence must guarantee of its first part: a raised exception ends
    the sequence, a result is handed to the rest. -/
def andThen (I : Trace Op Resp → Op → Prop) (Q : Trace Op Resp → Except E β → Prop)
    (f : α → Program Op Resp E β) (h : Trace Op Resp) : Except E α → Prop
  | .ok a => wp I Q h (f a)
  | .error e => Q h (.error e)

@[simp] theorem andThen_ok {Q : Trace Op Resp → Except E β → Prop}
    {f : α → Program Op Resp E β} {a : α} : andThen I Q f h (.ok a) ↔ wp I Q h (f a) := Iff.rfl

@[simp] theorem andThen_error {Q : Trace Op Resp → Except E β → Prop}
    {f : α → Program Op Resp E β} {e : E} : andThen I Q f h (.error e) ↔ Q h (.error e) := Iff.rfl

theorem wp_bind {Q : Trace Op Resp → Except E β → Prop} (p : Program Op Resp E α)
    (f : α → Program Op Resp E β) :
    wp I Q h (p >>= f) ↔ wp I (andThen I Q f) h p := by
  change wp I Q h (p.bind f) ↔ _
  induction p generalizing h with
  | ret a => exact Iff.rfl
  | raise e => exact Iff.rfl
  | op o k ih =>
      rw [bind, wp_op, wp_op]
      exact and_congr_right fun _ => forall_congr' fun r => ih r

@[simp] theorem wp_perform_bind {Q : Trace Op Resp → Except E β → Prop} (o : Op)
    (f : Resp o → Program Op Resp E β) :
    wp I Q h ((perform o : Program Op Resp E (Resp o)) >>= f) ↔
      I h o ∧ ∀ r, wp I Q (h ++ [⟨o, r⟩]) (f r) := Iff.rfl

theorem wp_mono {p : Program Op Resp E α} (hI : ∀ h o, I h o → I' h o)
    (hQ : ∀ h r, Q h r → Q' h r) (hp : wp I Q h p) : wp I' Q' h p := by
  induction p generalizing h with
  | ret a => exact hQ _ _ hp
  | raise e => exact hQ _ _ hp
  | op o k ih => exact ⟨hI _ _ hp.1, fun r => ih r (hp.2 r)⟩

/-! ## What a program may perform -/

/-- Whatever came before, every operation of the program meets `P` and every
    result meets `R`. -/
def Performs (P : Op → Prop) (R : α → Prop) : Program Op Resp E α → Prop
  | .ret a => R a
  | .raise _ => True
  | .op o k => P o ∧ ∀ r, Performs P R (k r)

section Performs

variable {P : Op → Prop} {R : α → Prop} {R' : β → Prop}

@[simp] theorem performs_ret {a : α} :
    Performs P R (.ret a : Program Op Resp E α) ↔ R a := Iff.rfl

@[simp] theorem performs_pure {a : α} :
    Performs P R (pure a : Program Op Resp E α) ↔ R a := Iff.rfl

@[simp] theorem performs_raise (e : E) : Performs P R (.raise e : Program Op Resp E α) := trivial

theorem performs_perform {o : Op} {R : Resp o → Prop} (h : P o) (hR : ∀ r, R r) :
    Performs P R (perform o : Program Op Resp E (Resp o)) := ⟨h, hR⟩

theorem Performs.bind {p : Program Op Resp E α} {f : α → Program Op Resp E β}
    (hp : Performs P R p) (hf : ∀ a, R a → Performs P R' (f a)) : Performs P R' (p >>= f) := by
  change Performs P R' (p.bind f)
  induction p with
  | ret a => exact hf a hp
  | raise e => trivial
  | op o k ih => exact ⟨hp.1, fun r => ih r (hp.2 r)⟩

theorem Performs.mono {p : Program Op Resp E α} {R' : α → Prop} (hp : Performs P R p)
    (hR : ∀ a, R a → R' a) : Performs P R' p := by
  induction p with
  | ret a => exact hR a hp
  | raise e => trivial
  | op o k ih => exact ⟨hp.1, fun r => ih r (hp.2 r)⟩

theorem Performs.wp {p : Program Op Resp E α} (hp : Performs P R p) (h : Trace Op Resp) :
    wp (fun _ o => P o) (fun _ _ => True) h p := by
  induction p generalizing h with
  | ret a => trivial
  | raise e => trivial
  | op o k ih => exact ⟨hp.1, fun r => ih r (hp.2 r) _⟩

/-- A first part that performs only `P` and returns only `R` leads from a trace to
    longer ones. -/
theorem Performs.wp_bind {p : Program Op Resp E α} (hp : Performs P R p)
    {f : α → Program Op Resp E β} {I : Trace Op Resp → Op → Prop}
    {Q : Trace Op Resp → Except E β → Prop} {h : Trace Op Resp}
    (hI : ∀ t o, P o → I t o) (hok : ∀ t a, h <+: t → R a → Program.wp I Q t (f a))
    (herror : ∀ t e, Q t (.error e)) : Program.wp I Q h (p >>= f) := by
  change Program.wp I Q h (p.bind f)
  induction p generalizing h with
  | ret a => exact hok h a List.prefix_rfl hp
  | raise e => exact herror h e
  | op o k ih =>
    refine ⟨hI h o hp.1, fun r => ih r (hp.2 r) fun t a ht => ?_⟩
    exact hok t a ((List.prefix_append h _).trans ht)

end Performs

/-! ## What some run performs -/

section Reaches

/-- Some run of the program, on responses that `A` allows, performs `o`. -/
inductive Reaches (A : (o : Op) → Resp o → Prop) (o : Op) : Program Op Resp E α → Prop
  | here {k : Resp o → Program Op Resp E α} : Reaches A o (.op o k)
  | later {o' : Op} {k : Resp o' → Program Op Resp E α} (r : Resp o') (allowed : A o' r)
      (rest : Reaches A o (k r)) : Reaches A o (.op o' k)

/-- Some run of the program, on responses that `A` allows, returns `a`. -/
inductive Returns (A : (o : Op) → Resp o → Prop) (a : α) : Program Op Resp E α → Prop
  | ret : Returns A a (.ret a)
  | op {o : Op} {k : Resp o → Program Op Resp E α} (r : Resp o) (allowed : A o r)
      (rest : Returns A a (k r)) : Returns A a (.op o k)

variable {A : (o : Op) → Resp o → Prop} {o : Op}

theorem not_reaches_ret {a : α} : ¬Reaches A o (.ret a : Program Op Resp E α) := nofun

theorem not_reaches_raise {e : E} : ¬Reaches A o (.raise e : Program Op Resp E α) := nofun

theorem returns_ret {a b : α} : Returns A b (.ret a : Program Op Resp E α) ↔ b = a := by
  constructor
  · rintro ⟨⟩
    rfl
  · rintro rfl
    exact .ret

theorem reaches_perform {o' : Op} :
    Reaches A o (perform o' : Program Op Resp E (Resp o')) ↔ o = o' := by
  constructor
  · rintro (_ | ⟨r, -, hrest⟩)
    · rfl
    · exact absurd hrest not_reaches_ret
  · rintro rfl
    exact .here

theorem returns_perform {o' : Op} {r : Resp o'} :
    Returns A r (perform o' : Program Op Resp E (Resp o')) ↔ A o' r := by
  constructor
  · rintro (_ | ⟨r', hr', hrest⟩)
    rwa [returns_ret.mp hrest]
  · exact fun hr => .op r hr .ret

/-- A sequence reaches what its first part does, or its second on a result of the first. -/
theorem reaches_bind {p : Program Op Resp E α} {f : α → Program Op Resp E β} :
    Reaches A o (p >>= f) ↔ Reaches A o p ∨ ∃ a, Returns A a p ∧ Reaches A o (f a) := by
  change Reaches A o (p.bind f) ↔ _
  induction p with
  | ret a =>
    constructor
    · exact fun h => .inr ⟨a, .ret, h⟩
    · rintro (h | ⟨b, hb, h⟩)
      · exact absurd h not_reaches_ret
      · rwa [← returns_ret.mp hb]
  | raise e =>
    constructor
    · exact fun h => absurd h not_reaches_raise
    · rintro (h | ⟨b, hb, -⟩)
      · exact absurd h not_reaches_raise
      · cases hb
  | op o' k ih =>
    -- performed first, or later, after one of the responses
    constructor
    · rintro (_ | ⟨r, hr, hrest⟩)
      · exact .inl .here
      · rcases (ih r).mp hrest with h | ⟨a, ha, h⟩
        · exact .inl (.later r hr h)
        · exact .inr ⟨a, .op r hr ha, h⟩
    · rintro (h | ⟨a, ha, h⟩)
      · cases h with
        | here => exact .here
        | later r hr hrest => exact .later r hr ((ih r).mpr (.inl hrest))
      · obtain _ | ⟨r, hr, hrest⟩ := ha
        exact .later r hr ((ih r).mpr (.inr ⟨a, hrest, h⟩))

theorem returns_bind {p : Program Op Resp E α} {f : α → Program Op Resp E β} {b : β} :
    Returns A b (p >>= f) ↔ ∃ a, Returns A a p ∧ Returns A b (f a) := by
  change Returns A b (p.bind f) ↔ _
  induction p with
  | ret a =>
    constructor
    · exact fun h => ⟨a, .ret, h⟩
    · rintro ⟨a', ha, h⟩
      rwa [← returns_ret.mp ha]
  | raise e =>
    constructor
    · rintro ⟨⟩
    · rintro ⟨a, ha, -⟩
      cases ha
  | op o' k ih =>
    constructor
    · rintro (_ | ⟨r, hr, hrest⟩)
      obtain ⟨a, ha, h⟩ := (ih r).mp hrest
      exact ⟨a, .op r hr ha, h⟩
    · rintro ⟨a, _ | ⟨r, hr, hrest⟩, h⟩
      exact .op r hr ((ih r).mpr ⟨a, hrest, h⟩)

end Reaches

/-- How a program ends on fixed answers. -/
def answered (answers : (o : Op) → Resp o) : Program Op Resp E α → Except E α
  | .ret a => .ok a
  | .raise e => .error e
  | .op o k => (k (answers o)).answered answers

theorem answered_bind {answers : (o : Op) → Resp o} (p : Program Op Resp E α)
    (f : α → Program Op Resp E β) :
    (p >>= f).answered answers = p.answered answers >>= fun a => (f a).answered answers := by
  change (p.bind f).answered answers = _
  induction p with
  | ret a => rfl
  | raise e => rfl
  | op o k ih => exact ih (answers o)

/-! ## The runs of a program -/

section Yields

/-- With the responses of the trace the program performs the trace and ends so. -/
def Yields : Program Op Resp E α → Trace Op Resp → Except E α → Prop
  | .ret a, t, r => t = [] ∧ r = .ok a
  | .raise e, t, r => t = [] ∧ r = .error e
  | .op o k, t, r => ∃ x t', t = ⟨o, x⟩ :: t' ∧ Yields (k x) t' r

variable {t : Trace Op Resp}

theorem yields_pure {a b : α} :
    Yields (pure a : Program Op Resp E α) t (.ok b) ↔ t = [] ∧ b = a := by
  show t = [] ∧ (Except.ok b : Except E α) = .ok a ↔ _
  rw [Except.ok.injEq]

theorem not_yields_raise {e : E} {b : α} :
    ¬Yields (.raise e : Program Op Resp E α) t (.ok b) := by
  rintro ⟨-, h⟩
  cases h

theorem yields_perform {o : Op} {x : Resp o} :
    Yields (perform o : Program Op Resp E (Resp o)) t (.ok x) ↔ t = [⟨o, x⟩] := by
  constructor
  · rintro ⟨y, t', rfl, rfl, h⟩
    rw [Except.ok.inj h]
  · rintro rfl
    exact ⟨x, [], rfl, rfl, rfl⟩

/-- A run of a sequence is a run of its first part and one of the rest on its result. -/
theorem yields_bind {p : Program Op Resp E α} {f : α → Program Op Resp E β} {b : β} :
    Yields (p >>= f) t (.ok b) ↔
      ∃ t₁ a t₂, Yields p t₁ (.ok a) ∧ Yields (f a) t₂ (.ok b) ∧ t = t₁ ++ t₂ := by
  change Yields (p.bind f) t (.ok b) ↔ _
  induction p generalizing t with
  | ret a =>
    constructor
    · exact fun h => ⟨[], a, t, ⟨rfl, rfl⟩, h, rfl⟩
    · rintro ⟨t₁, a', t₂, ⟨rfl, ha⟩, h, rfl⟩
      obtain rfl := Except.ok.inj ha
      exact h
  | raise e =>
    constructor
    · exact fun h => absurd h not_yields_raise
    · rintro ⟨t₁, a, t₂, h, -, -⟩
      exact absurd h not_yields_raise
  | op o k ih =>
    -- the trace is cut where the first program has returned
    constructor
    · rintro ⟨x, t', rfl, h⟩
      obtain ⟨t₁, a, t₂, hp, hf, rfl⟩ := (ih x).mp h
      exact ⟨⟨o, x⟩ :: t₁, a, t₂, ⟨x, t₁, rfl, hp⟩, hf, rfl⟩
    · rintro ⟨t₁, a, t₂, ⟨x, t', rfl, hp⟩, hf, rfl⟩
      exact ⟨x, t' ++ t₂, rfl, (ih x).mpr ⟨t', a, t₂, hp, hf, rfl⟩⟩

end Yields

/-! ## Programs under observation -/

section Observe

variable {V : Type} (see : V → (o : Op) → Resp o → V)

/-- What an observer who started at `v` knows after the operations `h`. -/
def observe (v : V) (h : Trace Op Resp) : V := h.foldl (fun v x => see v x.1 x.2) v

@[simp] theorem observe_nil (v : V) : observe see v [] = v := rfl

@[simp] theorem observe_append (v : V) (h : Trace Op Resp) (o : Op) (r : Resp o) :
    observe see v (h ++ [⟨o, r⟩]) = see (observe see v h) o r := by
  rw [observe, List.foldl_append]
  rfl

/-- Every operation of the program meets `I` and every outcome meets `Q`, of
    what the observer knows by then. -/
def Follows (I : V → Op → Prop) (Q : V → Except E α → Prop) : V → Program Op Resp E α → Prop
  | v, .ret a => Q v (.ok a)
  | v, .raise e => Q v (.error e)
  | v, .op o k => I v o ∧ ∀ r, Follows I Q (see v o r) (k r)

variable {see} {I : V → Op → Prop} {v : V}

@[simp] theorem follows_ret {Q : V → Except E α → Prop} (a : α) :
    Follows see I Q v (.ret a : Program Op Resp E α) ↔ Q v (.ok a) := Iff.rfl

@[simp] theorem follows_pure {Q : V → Except E α → Prop} (a : α) :
    Follows see I Q v (pure a : Program Op Resp E α) ↔ Q v (.ok a) := Iff.rfl

@[simp] theorem follows_raise {Q : V → Except E α → Prop} (e : E) :
    Follows see I Q v (.raise e : Program Op Resp E α) ↔ Q v (.error e) := Iff.rfl

theorem follows_op {Q : V → Except E α → Prop} (o : Op) (k : Resp o → Program Op Resp E α) :
    Follows see I Q v (.op o k) ↔ I v o ∧ ∀ r, Follows see I Q (see v o r) (k r) := Iff.rfl

@[simp] theorem follows_perform_bind {Q : V → Except E β → Prop} (o : Op)
    (f : Resp o → Program Op Resp E β) :
    Follows see I Q v ((perform o : Program Op Resp E (Resp o)) >>= f) ↔
      I v o ∧ ∀ r, Follows see I Q (see v o r) (f r) := Iff.rfl

/-- A sequence follows if its first part does, up to what the second needs. -/
theorem Follows.bind {R : V → Except E α → Prop} {Q : V → Except E β → Prop}
    {p : Program Op Resp E α} {f : α → Program Op Resp E β} (hp : Follows see I R v p)
    (hok : ∀ v a, R v (.ok a) → Follows see I Q v (f a))
    (herror : ∀ v e, R v (.error e) → Q v (.error e)) :
    Follows see I Q v (p >>= f) := by
  change Follows see I Q v (p.bind f)
  induction p generalizing v with
  | ret a => exact hok v a hp
  | raise e => exact herror v e hp
  | op o k ih => exact ⟨hp.1, fun r => ih r (hp.2 r)⟩

theorem Follows.mono {Q Q' : V → Except E α → Prop} {p : Program Op Resp E α}
    (hp : Follows see I Q v p) (hQ : ∀ v r, Q v r → Q' v r) : Follows see I Q' v p := by
  induction p generalizing v with
  | ret a => exact hQ _ _ hp
  | raise e => exact hQ _ _ hp
  | op o k ih => exact ⟨hp.1, fun r => ih r (hp.2 r)⟩

end Observe

end Program

/-! ## Interleaving -/

namespace Pool

open Program Machine

/-- The shared world of a pool: what the environment does to it between two
    operations, how it answers an operation, and what the cancellation of a task
    changes.  An operation without a response goes on: its task stays where it
    is.  `χ` is the environment's choice where an answer is not determined by
    the world. -/
structure World (W Op : Type) (Resp : Op → Type) (ε χ ω : Type) where
  init : W
  env : W → ε → Option (W × List ω)
  answer : W → Nat → (o : Op) → χ → Option (W × Option (Resp o) × List ω)
  cancel : W → Nat → W := fun w _ => w

/-- A started call, the operations it has performed, and what is left of it. -/
structure Task (κ Op : Type) (Resp : Op → Type) (E α : Type) where
  call : κ
  trace : Trace Op Resp
  code : Program Op Resp E α

/-- The world and the tasks; a finished or cancelled task leaves its slot empty. -/
structure State (W κ Op : Type) (Resp : Op → Type) (E α : Type) where
  world : W
  tasks : List (Option (Task κ Op Resp E α))

inductive Event (κ ε χ : Type)
  | env (e : ε)
  | spawn (c : κ)
  | resume (i : Nat) (x : χ)
  | cancel (i : Nat)

/-- What an observer sees.  `did` and `returned` name the task, its call and
    the operations it had performed before. -/
inductive Out (κ Op : Type) (Resp : Op → Type) (E α ω : Type)
  | env (x : ω)
  | did (i : Nat) (c : κ) (h : Trace Op Resp) (o : Op) (r : Resp o)
  | returned (i : Nat) (c : κ) (h : Trace Op Resp) (r : Except E α)

variable {W κ Op : Type} {Resp : Op → Type} {E α ε χ ω : Type}

/-- One turn of an operation, or the end, of the task in slot `i`. -/
def resume (w : World W Op Resp ε χ ω) (s : State W κ Op Resp E α) (i : Nat) (x : χ)
    (t : Task κ Op Resp E α) : Option (State W κ Op Resp E α × List (Out κ Op Resp E α ω)) :=
  match t.code with
  | .ret a => some ({ s with tasks := s.tasks.set i none }, [.returned i t.call t.trace (.ok a)])
  | .raise e =>
    some ({ s with tasks := s.tasks.set i none }, [.returned i t.call t.trace (.error e)])
  | .op o k =>
    match w.answer s.world i o x with
    | none => none
    | some (w', none, out) => some ({ s with world := w' }, out.map .env)
    | some (w', some r, out) =>
      some ({ world := w', tasks := s.tasks.set i (some ⟨t.call, t.trace ++ [⟨o, r⟩], k r⟩) },
        out.map .env ++ [.did i t.call t.trace o r])

def step (w : World W Op Resp ε χ ω) (body : κ → Program Op Resp E α)
    (s : State W κ Op Resp E α) :
    Event κ ε χ → Option (State W κ Op Resp E α × List (Out κ Op Resp E α ω))
  | .env e =>
    match w.env s.world e with
    | none => none
    | some (w', out) => some ({ s with world := w' }, out.map .env)
  | .spawn c => some ({ s with tasks := s.tasks ++ [some ⟨c, [], body c⟩] }, [])
  | .resume i x =>
    match s.tasks[i]? with
    | some (some t) => resume w s i x t
    | _ => none
  | .cancel i => some ({ world := w.cancel s.world i, tasks := s.tasks.set i none }, [])

/-- The pool that runs `body c` for every spawned call `c`. -/
def system (w : World W Op Resp ε χ ω) (body : κ → Program Op Resp E α) :
    System (State W κ Op Resp E α) (Event κ ε χ) (Out κ Op Resp E α ω) where
  init := { world := w.init, tasks := [] }
  step := step w body

variable {w : World W Op Resp ε χ ω} {body : κ → Program Op Resp E α}
  {s s' : State W κ Op Resp E α} {e : Event κ ε χ} {out : List (Out κ Op Resp E α ω)}

/-- Everything one pool step can do: the environment moves, a task starts, is
    cancelled or ends, its operation goes on, or its operation is done. -/
theorem step_cases (h : step w body s e = some (s', out)) :
    (∃ ev w' eo, e = .env ev ∧ w.env s.world ev = some (w', eo) ∧
      s' = { s with world := w' } ∧ out = eo.map .env) ∨
    (∃ c, e = .spawn c ∧ s' = { s with tasks := s.tasks ++ [some ⟨c, [], body c⟩] } ∧ out = []) ∨
    (∃ i, e = .cancel i ∧ s' = { world := w.cancel s.world i, tasks := s.tasks.set i none } ∧
      out = []) ∨
    (∃ i x t r, e = .resume i x ∧ s.tasks[i]? = some (some t) ∧
      t.code.outcome = some r ∧
      s' = { s with tasks := s.tasks.set i none } ∧ out = [.returned i t.call t.trace r]) ∨
    (∃ i x t o k w' eo, e = .resume i x ∧ s.tasks[i]? = some (some t) ∧ t.code = .op o k ∧
      w.answer s.world i o x = some (w', none, eo) ∧
      s' = { s with world := w' } ∧ out = eo.map .env) ∨
    (∃ i x t o k w' r eo, e = .resume i x ∧ s.tasks[i]? = some (some t) ∧ t.code = .op o k ∧
      w.answer s.world i o x = some (w', some r, eo) ∧
      s' = { world := w',
             tasks := s.tasks.set i (some ⟨t.call, t.trace ++ [⟨o, r⟩], k r⟩) } ∧
      out = eo.map .env ++ [.did i t.call t.trace o r]) := by
  -- an event of the world, a new task, a cancelled one, or a turn of a task
  cases e with
  | env ev =>
      simp only [step] at h
      split at h
      · simp at h
      · rename_i w' eo hw
        simp only [Option.some.injEq, Prod.mk.injEq] at h
        exact .inl ⟨ev, w', eo, rfl, hw, h.1.symm, h.2.symm⟩
  | spawn c =>
      simp only [step, Option.some.injEq, Prod.mk.injEq] at h
      exact .inr (.inl ⟨c, rfl, h.1.symm, h.2.symm⟩)
  | cancel i =>
      simp only [step, Option.some.injEq, Prod.mk.injEq] at h
      exact .inr (.inr (.inl ⟨i, rfl, h.1.symm, h.2.symm⟩))
  | resume i x =>
      simp only [step] at h
      split at h
      · rename_i t ht
        simp only [resume] at h
        -- the task ends, or its next operation is answered, now or not yet
        split at h
        · rename_i a hcode
          simp only [Option.some.injEq, Prod.mk.injEq] at h
          exact .inr (.inr (.inr (.inl
            ⟨i, x, t, .ok a, rfl, ht, by rw [hcode]; rfl, h.1.symm, h.2.symm⟩)))
        · rename_i ex hcode
          simp only [Option.some.injEq, Prod.mk.injEq] at h
          exact .inr (.inr (.inr (.inl
            ⟨i, x, t, .error ex, rfl, ht, by rw [hcode]; rfl, h.1.symm, h.2.symm⟩)))
        · rename_i o k hcode
          split at h
          · simp at h
          · rename_i w' eo hans
            simp only [Option.some.injEq, Prod.mk.injEq] at h
            exact .inr (.inr (.inr (.inr (.inl
              ⟨i, x, t, o, k, w', eo, rfl, ht, hcode, hans, h.1.symm, h.2.symm⟩))))
          · rename_i w' r eo hans
            simp only [Option.some.injEq, Prod.mk.injEq] at h
            exact .inr (.inr (.inr (.inr (.inr
              ⟨i, x, t, o, k, w', r, eo, rfl, ht, hcode, hans, h.1.symm, h.2.symm⟩))))
      · simp at h

/-- A turn of a task that is at an operation is the world's answer to it. -/
theorem step_resume_op {i : Nat} {x : χ} {t : Task κ Op Resp E α} {o : Op}
    {k : Resp o → Program Op Resp E α}
    (h : (system w body).step s (.resume i x) = some (s', out))
    (ht : s.tasks[i]? = some (some t)) (hcode : t.code = .op o k) :
    ∃ r eo, w.answer s.world i o x = some (s'.world, r, eo) ∧
      ∀ r', r = some r' → .did i t.call t.trace o r' ∈ out := by
  simp only [system, step, ht, resume, hcode] at h
  split at h
  · cases h
  · rename_i w' eo ha
    cases h
    exact ⟨none, eo, ha, by simp⟩
  · rename_i w' r eo ha
    cases h
    refine ⟨some r, eo, ha, fun r' hr' => ?_⟩
    cases hr'
    simp

/-! ## What a run keeps -/

variable {ok : State W κ Op Resp E α → Event κ ε χ → Prop}
  {es : List (Event κ ε χ)} {log : List (Out κ Op Resp E α ω)}

/-- The tasks of a pool all satisfy `P`. -/
def Tasks (P : Task κ Op Resp E α → Prop) (s : State W κ Op Resp E α) : Prop :=
  ∀ t, some t ∈ s.tasks → P t

theorem Tasks.set_none {P : Task κ Op Resp E α → Prop} (h : Tasks P s) (i : Nat) (w' : W) :
    Tasks P { world := w', tasks := s.tasks.set i none } := fun t ht => by
  rcases List.mem_or_eq_of_mem_set ht with ht | ht
  · exact h t ht
  · cases ht

theorem Tasks.set_some {P : Task κ Op Resp E α → Prop} (h : Tasks P s) (i : Nat) (w' : W)
    {t' : Task κ Op Resp E α} (ht' : P t') :
    Tasks P { world := w', tasks := s.tasks.set i (some t') } := fun t ht => by
  rcases List.mem_or_eq_of_mem_set ht with ht | ht
  · exact h t ht
  · cases ht
    exact ht'

theorem Tasks.append {P : Task κ Op Resp E α → Prop} (h : Tasks P s) (w' : W)
    {t' : Task κ Op Resp E α} (ht' : P t') :
    Tasks P { world := w', tasks := s.tasks ++ [some t'] } := fun t ht => by
  rcases List.mem_append.mp ht with ht | ht
  · exact h t ht
  · cases List.mem_singleton.mp ht
    exact ht'

/-- What the specification of every call says of one observation. -/
def Meets (I : κ → Trace Op Resp → Op → Prop) (Q : κ → Trace Op Resp → Except E α → Prop) :
    Out κ Op Resp E α ω → Prop
  | .env _ => True
  | .did _ c h o _ => I c h o
  | .returned _ c h r => Q c h r

/-- If every call alone meets its specification, every operation and every
    outcome of every interleaving does. -/
theorem meets_of_wp {I : κ → Trace Op Resp → Op → Prop}
    {Q : κ → Trace Op Resp → Except E α → Prop} (hbody : ∀ c, wp (I c) (Q c) [] (body c))
    (h : Path (system w body) ok (system w body).init es log s) :
    ∀ x ∈ log, Meets I Q x := by
  -- all that was observed is right, and every task still has to meet its specification
  have key : (∀ x ∈ log, Meets I Q x) ∧
      Tasks (fun t => wp (I t.call) (Q t.call) t.trace t.code) s := by
    refine h.induct (P := fun log s => (∀ x ∈ log, Meets I Q x) ∧
      Tasks (fun t => wp (I t.call) (Q t.call) t.trace t.code) s)
      ⟨by simp, by simp [Tasks, system]⟩ ?_
    rintro log s e s' out ⟨hlog, htasks⟩ - hstep
    have happend : (∀ x ∈ out, Meets I Q x) → ∀ x ∈ log ++ out, Meets I Q x := fun hout x hx =>
      (List.mem_append.mp hx).elim (hlog x) (hout x)
    have henv : ∀ eo : List ω, ∀ x ∈ (eo.map Out.env : List (Out κ Op Resp E α ω)),
        Meets I Q x := by
      intro eo x hx
      obtain ⟨y, -, rfl⟩ := List.mem_map.mp hx
      trivial
    rcases step_cases hstep with ⟨ev, w', eo, -, -, rfl, rfl⟩ | ⟨c, -, rfl, rfl⟩ |
      ⟨i, -, rfl, rfl⟩ | ⟨i, x, t, r, -, ht, hcode, rfl, rfl⟩ |
      ⟨i, x, t, o, k, w', eo, -, -, -, -, rfl, rfl⟩ |
      ⟨i, x, t, o, k, w', r, eo, -, ht, hcode, -, rfl, rfl⟩
    · exact ⟨happend (henv eo), htasks⟩
    · exact ⟨happend (by simp), htasks.append _ (hbody c)⟩
    -- a cancelled task has nothing to meet
    · exact ⟨happend (by simp), htasks.set_none i _⟩
    -- a task that ends does so as specified
    · have hwp : wp (I t.call) (Q t.call) t.trace t.code := htasks t (List.mem_of_getElem? ht)
      refine ⟨happend ?_, htasks.set_none i _⟩
      intro x hx
      cases List.mem_singleton.mp hx
      exact wp_outcome hcode hwp
    · exact ⟨happend (henv eo), htasks⟩
    -- an operation is as specified, and so is what follows every response to it
    · have hwp : wp (I t.call) (Q t.call) t.trace t.code := htasks t (List.mem_of_getElem? ht)
      rw [hcode, wp_op] at hwp
      refine ⟨happend ?_, htasks.set_some i _ (hwp.2 r)⟩
      intro x hx
      rcases List.mem_append.mp hx with hx | hx
      · exact henv eo x hx
      · cases List.mem_singleton.mp hx
        exact hwp.1
  exact key.1

/-- The operations an observation says have been performed. -/
def Out.trace : Out κ Op Resp E α ω → Trace Op Resp
  | .env _ => []
  | .did _ _ h o r => h ++ [⟨o, r⟩]
  | .returned _ _ h _ => h

/-- If every answer the world gives is justified by what has been observed when
    it is given, every operation in the trace of every task stays justified. -/
theorem justified {R : List (Out κ Op Resp E α ω) → (o : Op) → Resp o → Prop}
    (hmono : ∀ log out o r, R log o r → R (log ++ out) o r)
    (hans : ∀ es log s i o x w' r eo, Path (system w body) ok (system w body).init es log s →
      w.answer s.world i o x = some (w', some r, eo) → R log o r)
    (h : Path (system w body) ok (system w body).init es log s) :
    (∀ x ∈ log, ∀ y ∈ x.trace, R log y.1 y.2) ∧
      Tasks (fun t => ∀ y ∈ t.trace, R log y.1 y.2) s := by
  induction h with
  | refl => exact ⟨by simp, by simp [Tasks, system]⟩
  | @snoc es log s e s' out hp hok hstep ih =>
      obtain ⟨hlog, htasks⟩ := ih
      -- what is justified stays so, of all traces
      have htasks' : Tasks (fun t => ∀ y ∈ t.trace, R (log ++ out) y.1 y.2) s :=
        fun t ht y hy => hmono _ _ _ _ (htasks t ht y hy)
      have happend : (∀ x ∈ out, ∀ y ∈ x.trace, R (log ++ out) y.1 y.2) →
          ∀ x ∈ log ++ out, ∀ y ∈ x.trace, R (log ++ out) y.1 y.2 := fun hout x hx =>
        (List.mem_append.mp hx).elim
          (fun hx y hy => hmono _ _ _ _ (hlog x hx y hy)) (hout x)
      have henv : ∀ eo : List ω, ∀ x ∈ (eo.map Out.env : List (Out κ Op Resp E α ω)),
          ∀ y ∈ x.trace, R (log ++ out) y.1 y.2 := by
        intro eo x hx
        obtain ⟨y, -, rfl⟩ := List.mem_map.mp hx
        simp [Out.trace]
      rcases step_cases hstep with ⟨ev, w', eo, -, -, rfl, rfl⟩ | ⟨c, -, rfl, rfl⟩ |
        ⟨i, -, rfl, rfl⟩ | ⟨i, x, t, r, -, ht, hcode, rfl, rfl⟩ |
        ⟨i, x, t, o, k, w', eo, -, -, -, -, rfl, rfl⟩ |
        ⟨i, x, t, o, k, w', r, eo, -, ht, hcode, ha, rfl, rfl⟩
      · exact ⟨happend (henv eo), htasks'⟩
      · exact ⟨happend (by simp), htasks'.append _ (by simp)⟩
      · exact ⟨happend (by simp), htasks'.set_none i _⟩
      -- the trace of a task that ends was justified before
      · refine ⟨happend ?_, htasks'.set_none i _⟩
        intro x hx
        cases List.mem_singleton.mp hx
        exact htasks' t (List.mem_of_getElem? ht)
      · exact ⟨happend (henv eo), htasks'⟩
      · -- the operation just performed is justified by what was observed before it
        have hextend : ∀ y ∈ t.trace ++ [⟨o, r⟩],
            R (log ++ (eo.map .env ++ [.did i t.call t.trace o r])) y.1 y.2 := by
          intro y hy
          rcases List.mem_append.mp hy with hy | hy
          · exact htasks' t (List.mem_of_getElem? ht) y hy
          · cases List.mem_singleton.mp hy
            exact hmono _ _ _ _ (hans _ _ _ _ _ _ _ _ _ hp ha)
        refine ⟨happend ?_, htasks'.set_some i _ hextend⟩
        intro x hx
        rcases List.mem_append.mp hx with hx | hx
        · exact henv eo x hx
        · cases List.mem_singleton.mp hx
          exact hextend

/-- The calls that a schedule starts, in the order of their tasks. -/
def spawned (es : List (Event κ ε χ)) : List κ :=
  es.filterMap fun
    | .spawn c => some c
    | _ => none

@[simp] theorem spawned_append (es es' : List (Event κ ε χ)) :
    spawned (es ++ es') = spawned es ++ spawned es' := List.filterMap_append

/-- What is observed of a task names the call it was started with and operations
    it has been seen to perform. -/
structure Traced (es : List (Event κ ε χ)) (log : List (Out κ Op Resp E α ω)) (i : Nat) (c : κ)
    (h : Trace Op Resp) : Prop where
  call : (spawned es)[i]? = some c
  performed : ∀ y ∈ h, ∃ t, .did i c t y.1 y.2 ∈ log

theorem Traced.mono {i : Nat} {c : κ} {t : Trace Op Resp} (h : Traced es log i c t)
    (es' : List (Event κ ε χ)) (out : List (Out κ Op Resp E α ω)) :
    Traced (es ++ es') (log ++ out) i c t where
  call := by
    obtain ⟨hlt, hc⟩ := List.getElem?_eq_some_iff.mp h.call
    rw [spawned_append, List.getElem?_append_left hlt, h.call]
  performed y hy := by
    obtain ⟨t', ht⟩ := h.performed y hy
    exact ⟨t', List.mem_append_left _ ht⟩

/-- Every observation of a task is traced, and so is every task that is left. -/
structure Traces (es : List (Event κ ε χ)) (log : List (Out κ Op Resp E α ω))
    (s : State W κ Op Resp E α) : Prop where
  length : s.tasks.length = (spawned es).length
  tasks : ∀ i t, s.tasks[i]? = some (some t) → Traced es log i t.call t.trace
  did : ∀ i c t o r, .did i c t o r ∈ log → Traced es log i c t
  returned : ∀ i c t r, .returned i c t r ∈ log → Traced es log i c t

theorem traces (h : Path (system w body) ok (system w body).init es log s) :
    Traces es log s := by
  induction h with
  | refl => exact ⟨rfl, by simp [system], by simp, by simp⟩
  | @snoc es log s e s' out hp hok hstep ih =>
    -- what was traced before stays so, in the log and in the other slots
    have hold : ∀ i t, s.tasks[i]? = some (some t) →
        Traced (es ++ [e]) (log ++ out) i t.call t.trace :=
      fun i t ht => (ih.tasks i t ht).mono [e] out
    have hdid : ∀ i c t o r, .did i c t o r ∈ log → Traced (es ++ [e]) (log ++ out) i c t :=
      fun i c t o r hx => (ih.did i c t o r hx).mono [e] out
    have hreturned : ∀ i c t r, .returned i c t r ∈ log →
        Traced (es ++ [e]) (log ++ out) i c t :=
      fun i c t r hx => (ih.returned i c t r hx).mono [e] out
    have hset : ∀ (i : Nat) (t' : Option (Task κ Op Resp E α)),
        (∀ t, t' = some t → Traced (es ++ [e]) (log ++ out) i t.call t.trace) →
        ∀ j t, (s.tasks.set i t')[j]? = some (some t) →
          Traced (es ++ [e]) (log ++ out) j t.call t.trace := by
      intro i t' ht' j t hj
      rw [List.getElem?_set] at hj
      split at hj
      · subst_vars
        split at hj
        · exact ht' t (Option.some.inj hj)
        · cases hj
      · exact hold j t hj
    rcases step_cases hstep with ⟨ev, w', eo, rfl, -, rfl, rfl⟩ | ⟨c, rfl, rfl, rfl⟩ |
      ⟨i, rfl, rfl, rfl⟩ | ⟨i, x, t, r, rfl, ht, -, rfl, rfl⟩ |
      ⟨i, x, t, o, k, w', eo, rfl, -, -, -, rfl, rfl⟩ |
      ⟨i, x, t, o, k, w', r, eo, rfl, ht, -, -, rfl, rfl⟩
    · refine ⟨by simpa [spawned] using ih.length, hold, fun i c t o r hx => ?_,
        fun i c t r hx => ?_⟩
      · exact hdid i c t o r (by simpa using hx)
      · exact hreturned i c t r (by simpa using hx)
    -- a new task has the next slot, and an empty trace
    · refine ⟨by simpa [spawned] using ih.length, fun i t ht => ?_, fun i c t o r hx => ?_,
        fun i c t r hx => ?_⟩
      · rw [List.getElem?_append] at ht
        split at ht
        · exact hold i t ht
        · have hi : i = s.tasks.length := by
            obtain ⟨hlt, -⟩ := List.getElem?_eq_some_iff.mp ht
            rw [List.length_singleton] at hlt
            omega
          subst hi
          rw [Nat.sub_self, List.getElem?_cons_zero] at ht
          cases ht
          exact ⟨by simp [spawned, ih.length], by simp⟩
      · exact hdid i c t o r (by simpa using hx)
      · exact hreturned i c t r (by simpa using hx)
    · refine ⟨by simpa [spawned] using ih.length, hset i none (by simp), fun i c t o r hx => ?_,
        fun i c t r hx => ?_⟩
      · exact hdid i c t o r (by simpa using hx)
      · exact hreturned i c t r (by simpa using hx)
    · refine ⟨by simpa [spawned] using ih.length, hset i none (by simp), fun i' c t o r hx => ?_,
        fun i' c t' r' hx => ?_⟩
      · exact hdid i' c t o r (by simpa using hx)
      · rcases List.mem_append.mp hx with hx | hx
        · exact hreturned i' c t' r' hx
        · cases List.mem_singleton.mp hx
          exact hold i t ht
    · refine ⟨by simpa [spawned] using ih.length, hold, fun i c t o r hx => ?_,
        fun i c t r hx => ?_⟩
      · exact hdid i c t o r (by simpa using hx)
      · exact hreturned i c t r (by simpa using hx)
    -- the operation that a task performs is the last one of its trace
    · have hlast : Traced (es ++ [.resume i x])
          (log ++ (eo.map .env ++ [.did i t.call t.trace o r])) i t.call
          (t.trace ++ [⟨o, r⟩]) := by
        refine ⟨(hold i t ht).call, fun y hy => ?_⟩
        rcases List.mem_append.mp hy with hy | hy
        · exact (hold i t ht).performed y hy
        · cases List.mem_singleton.mp hy
          exact ⟨t.trace, by simp⟩
      refine ⟨by simpa [spawned] using ih.length, hset i _ (fun t' h' => ?_),
        fun i' c t' o' r' hx => ?_, fun i' c t' r' hx => ?_⟩
      · cases h'
        exact hlast
      · rcases List.mem_append.mp hx with hx | hx
        · exact hdid i' c t' o' r' hx
        · rcases List.mem_append.mp hx with hx | hx
          · simp at hx
          · cases List.mem_singleton.mp hx
            exact hold i t ht
      · exact hreturned i' c t' r' (by simpa using hx)

/-- What an observation shows of the environment. -/
def Out.seen : Out κ Op Resp E α ω → Option ω
  | .env x => some x
  | _ => none

@[simp] theorem filterMap_seen_env (eo : List ω) :
    (eo.map (Out.env : ω → Out κ Op Resp E α ω)).filterMap Out.seen = eo := by
  rw [List.filterMap_map]
  exact List.filterMap_some

@[simp] theorem filterMap_seen_did (i : Nat) (c : κ) (h : Trace Op Resp) (o : Op) (r : Resp o) :
    ([.did i c h o r] : List (Out κ Op Resp E α ω)).filterMap Out.seen = [] := rfl

@[simp] theorem filterMap_seen_returned (i : Nat) (c : κ) (h : Trace Op Resp) (r : Except E α) :
    ([.returned i c h r] : List (Out κ Op Resp E α ω)).filterMap Out.seen = [] := rfl

/-- A world property that the environment, every answer and every cancellation
    preserve, together with what they let the observer see, holds all along a
    run. -/
theorem world_induct {P : List ω → W → Prop} (hinit : P [] w.init)
    (henv : ∀ log v e v' out, P log v → w.env v e = some (v', out) → P (log ++ out) v')
    (hans : ∀ log v i o x v' r out, P log v → w.answer v i o x = some (v', r, out) →
      P (log ++ out) v')
    (hcancel : ∀ log v i, P log v → P log (w.cancel v i))
    (h : Path (system w body) ok (system w body).init es log s) :
    P (log.filterMap Out.seen) s.world := by
  refine h.induct (P := fun log s => P (log.filterMap Out.seen) s.world)
    (by simpa [system] using hinit) ?_
  rintro log s e s' out hP - hstep
  rcases step_cases hstep with ⟨ev, w', eo, -, hw, rfl, rfl⟩ | ⟨c, -, rfl, rfl⟩ | ⟨i, -, rfl, rfl⟩ |
    ⟨i, x, t, r, -, -, -, rfl, rfl⟩ | ⟨i, x, t, o, k, w', eo, -, -, -, ha, rfl, rfl⟩ |
    ⟨i, x, t, o, k, w', r, eo, -, -, -, ha, rfl, rfl⟩
  -- the observer sees the outputs of the world, and nothing of the tasks
  · rw [List.filterMap_append, filterMap_seen_env]
    exact henv _ _ _ _ _ hP hw
  · simpa using hP
  · simpa using hcancel _ _ i hP
  · simpa using hP
  · rw [List.filterMap_append, filterMap_seen_env]
    exact hans _ _ _ _ _ _ _ _ hP ha
  · rw [List.filterMap_append, List.filterMap_append, filterMap_seen_env]
    simpa using hans _ _ _ _ _ _ _ _ hP ha

end Pool
