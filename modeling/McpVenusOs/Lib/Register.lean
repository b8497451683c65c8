/-
  McpVenusOs.Lib.Register

  A stored value that many programs replace by compare and swap over a network
  that loses answers.

  Reading returns the value with its address; a write names the address of the
  value it replaces and is accepted only while that value is the current one.
  A read may be stale.  A request whose answer is lost stays in the network: it
  may reach the store later, any number of times or never, also after its
  program has ended.

  What survives of such a network is `history_chain`: every value that was ever
  stored was written by some program over the value stored before it.  A program
  that derives what it writes from what it has read (`Derives`) therefore moves
  the store along its own transition relation (`history_derived`), and an
  invariant of that relation holds of every stored value (`Chain.all`).
-/

import McpVenusOs.Lib.Program

namespace Register

open Program Machine Pool

/-- Read the value with its address, replace the value at an address (`none`:
    store the first value), or ask something else. -/
inductive Op (C A Q : Type)
  | read
  | write (previous : Option A) (next : C)
  | ask (q : Q)

/-- A failed request answers with an `F`, which tells nothing of its effect. -/
abbrev Resp (C A F : Type) {Q : Type} (Ans : Q → Type) : Op C A Q → Type
  | .read => Except F (Option (C × A))
  | .write _ _ => Except F Unit
  | .ask q => Ans q

/-- A write that was sent and not answered. -/
structure Sent (C A : Type) where
  task : Nat
  previous : Option A
  next : C

/-- A value that was stored, and the task that wrote it. -/
structure Entry (C : Type) where
  task : Nat
  value : C

/-- The values stored so far, newest first, and the writes in the network. -/
structure Store (C A : Type) where
  history : List (Entry C) := []
  sent : List (Sent C A) := []

/-- How the network treats a request. -/
inductive Choice (F : Type) {Q : Type} (Ans : Q → Type)
  | seen (age : Nat)
  | accept
  | fail (f : F)
  | say (a : (q : Q) → Ans q)

/-- A write in the network reaches the store. -/
inductive Delivery
  | deliver (k : Nat)

variable {C A F Q : Type} {Ans : Q → Type}

namespace Store

def current (s : Store C A) : Option C := s.history.head?.map Entry.value

/-- The value that was current `age` writes ago. -/
def seen (s : Store C A) (age : Nat) : Option C := (s.history.drop age).head?.map Entry.value

def apply (s : Store C A) (task : Nat) (next : C) : Store C A :=
  { s with history := ⟨task, next⟩ :: s.history }

variable [DecidableEq A] (address : C → A)

def accepts (s : Store C A) (previous : Option A) : Bool := s.current.map address == previous

/-- Every request may fail, and a write that fails may still be under way. -/
def answer (s : Store C A) (i : Nat) :
    (o : Op C A Q) → Choice F Ans → Option (Store C A × Option (Resp C A F Ans o) × List (Entry C))
  | .read, .seen age => some (s, some (.ok ((s.seen age).map fun c => (c, address c))), [])
  | .read, .fail f => some (s, some (.error f), [])
  | .write previous next, .accept =>
    if s.accepts address previous then some (s.apply i next, some (.ok ()), [⟨i, next⟩]) else none
  | .write previous next, .fail f =>
    some ({ s with sent := ⟨i, previous, next⟩ :: s.sent }, some (.error f), [])
  | .ask q, .say a => some (s, some (a q), [])
  | _, _ => none

def deliver (s : Store C A) : Delivery → Option (Store C A × List (Entry C))
  | .deliver k =>
    match s.sent[k]? with
    | none => none
    | some w =>
      if s.accepts address w.previous then some (s.apply w.task w.next, [⟨w.task, w.next⟩])
      else some (s, [])

def world : World (Store C A) (Op C A Q) (Resp C A F Ans) Delivery (Choice F Ans) (Entry C) where
  init := {}
  env := deliver address
  answer := answer address

variable {address} {s s' : Store C A}

/-- What an answer does to the store: nothing, one accepted write, or one more
    write in the network. -/
theorem answer_cases {i : Nat} {o : Op C A Q} {x : Choice F Ans}
    {r : Option (Resp C A F Ans o)} {out : List (Entry C)}
    (h : s.answer address i o x = some (s', r, out)) :
    (s' = s ∧ out = []) ∨
    (∃ previous next, o = .write previous next ∧ s.current.map address = previous ∧
      s' = s.apply i next ∧ out = [⟨i, next⟩]) ∨
    (∃ previous next, o = .write previous next ∧
      s' = { s with sent := ⟨i, previous, next⟩ :: s.sent } ∧ out = []) := by
  cases o with
  | read =>
    refine .inl ?_
    cases x <;> simp only [answer, Option.some.injEq, Prod.mk.injEq, reduceCtorEq] at h
    · exact ⟨h.1.symm, h.2.2.symm⟩
    · exact ⟨h.1.symm, h.2.2.symm⟩
  | write previous next =>
    cases x <;> simp only [answer, Option.some.injEq, Prod.mk.injEq, reduceCtorEq] at h
    · split at h
      · rename_i haccepts
        simp only [Option.some.injEq, Prod.mk.injEq] at h
        exact .inr (.inl ⟨previous, next, rfl, by simpa [accepts] using haccepts, h.1.symm,
          h.2.2.symm⟩)
      · cases h
    · exact .inr (.inr ⟨previous, next, rfl, h.1.symm, h.2.2.symm⟩)
  | ask q =>
    refine .inl ?_
    cases x <;> simp only [answer, Option.some.injEq, Prod.mk.injEq, reduceCtorEq] at h
    exact ⟨h.1.symm, h.2.2.symm⟩

/-- A delivery stores a write of the network, if the store accepts it. -/
theorem deliver_cases {e : Delivery} {out : List (Entry C)}
    (h : s.deliver address e = some (s', out)) :
    (s' = s ∧ out = []) ∨
    ∃ w ∈ s.sent, s.current.map address = w.previous ∧ s' = s.apply w.task w.next ∧
      out = [⟨w.task, w.next⟩] := by
  cases e with
  | deliver k =>
    simp only [deliver] at h
    split at h
    · cases h
    · rename_i w hw
      split at h
      · rename_i haccepts
        simp only [Option.some.injEq, Prod.mk.injEq] at h
        exact .inr ⟨w, List.mem_of_getElem? hw, by simpa [accepts] using haccepts, h.1.symm,
          h.2.symm⟩
      · simp only [Option.some.injEq, Prod.mk.injEq] at h
        exact .inl ⟨h.1.symm, h.2.symm⟩

end Store

/-! ## Chains -/

/-- Every value was stored by a step of its writer from the value before it. -/
def Chain (T : Nat → Option C → C → Prop) : List (Entry C) → Prop
  | [] => True
  | e :: rest => T e.task (rest.head?.map Entry.value) e.value ∧ Chain T rest

namespace Chain

variable {T T' : Nat → Option C → C → Prop} {history : List (Entry C)}

theorem mono (h : Chain T history) (himp : ∀ i cur next, T i cur next → T' i cur next) :
    Chain T' history := by
  induction history with
  | nil => trivial
  | cons e rest ih => exact ⟨himp _ _ _ h.1, ih h.2⟩

/-- What every step keeps holds of every stored value. -/
theorem all (h : Chain T history) {P : C → Prop}
    (hstep : ∀ i cur next, T i cur next → (∀ c, cur = some c → P c) → P next) :
    ∀ e ∈ history, P e.value := by
  induction history with
  | nil => simp
  | cons e rest ih =>
    have hrest := ih h.2
    intro x hx
    rcases List.mem_cons.mp hx with rfl | hx
    · apply hstep _ _ _ h.1
      intro c hc
      obtain ⟨e', he', rfl⟩ := Option.map_eq_some_iff.mp hc
      exact hrest e' (List.mem_of_head? he')
    · exact hrest x hx

/-- A transitive relation that holds across every step holds between a stored
    value and every value stored before it. -/
theorem pairwise (h : Chain T history) {R : C → C → Prop} (htrans : ∀ a b c, R a b → R b c → R a c)
    (hstep : ∀ i a b, T i (some a) b → R a b) :
    history.Pairwise fun later earlier => R earlier.value later.value := by
  induction history with
  | nil => exact .nil
  | cons e rest ih =>
    have hrest := ih h.2
    refine .cons ?_ hrest
    cases rest with
    | nil => simp
    | cons e' rest =>
      have hlast : R e'.value e.value := hstep _ _ _ h.1
      intro x hx
      rcases List.mem_cons.mp hx with rfl | hx
      · exact hlast
      · exact htrans _ _ _ ((List.pairwise_cons.mp hrest).1 x hx) hlast

/-- Every value but the first was stored over the one before it. -/
theorem split {newer older : List (Entry C)} {e : Entry C}
    (h : Chain T (newer ++ e :: older)) : T e.task (older.head?.map Entry.value) e.value := by
  induction newer with
  | nil => exact h.1
  | cons _ newer ih => exact ih h.2

end Chain

/-! ## Runs -/

section Runs

variable {κ E α : Type} [DecidableEq A] {address : C → A}
  {body : κ → Program (Op C A Q) (Resp C A F Ans) E α}

/-- Programs over one stored value. -/
abbrev system (address : C → A) (body : κ → Program (Op C A Q) (Resp C A F Ans) E α) :=
  Pool.system (Store.world address) body

/-- The observations of a run. -/
abbrev Log (κ : Type) (E α : Type) (C A F : Type) {Q : Type} (Ans : Q → Type) :=
  List (Out κ (Op C A Q) (Resp C A F Ans) E α (Entry C))

variable {es : List (Event κ Delivery (Choice F Ans))} {log : Log κ E α C A F Ans}
  {s : State (Store C A) κ (Op C A Q) (Resp C A F Ans) E α}

/-- Task `i` has asked to store `next` over the value at `previous`. -/
def Wrote (log : Log κ E α C A F Ans) (i : Nat) (previous : Option A) (next : C) : Prop :=
  ∃ c h r, .did i c h (.write previous next) r ∈ log

omit [DecidableEq A] in
theorem Wrote.append {i : Nat} {previous : Option A} {next : C} (h : Wrote log i previous next)
    (out : Log κ E α C A F Ans) : Wrote (log ++ out) i previous next := by
  obtain ⟨c, t, r, hd⟩ := h
  exact ⟨c, t, r, List.mem_append_left _ hd⟩

/-- Whatever is lost, late or repeated on the way: a stored value was written by
    a task that named the address of the value before it. -/
theorem history_chain (h : Run (system address body) es log s) :
    Chain (fun i cur next => Wrote log i (cur.map address) next) s.world.history := by
  -- the writes still in the network were asked for as well
  have key : (∀ w ∈ s.world.sent, Wrote log w.task w.previous w.next) ∧
      Chain (fun i cur next => Wrote log i (cur.map address) next) s.world.history := by
    refine h.induct (P := fun log s =>
      (∀ w ∈ s.world.sent, Wrote log w.task w.previous w.next) ∧
        Chain (fun i cur next => Wrote log i (cur.map address) next) s.world.history)
      ⟨by simp [Pool.system, Store.world], by simp [Pool.system, Store.world, Chain]⟩ ?_
    rintro log s e s' out ⟨hsent, hchain⟩ - hstep
    have hsent' : ∀ w ∈ s.world.sent, Wrote (log ++ out) w.task w.previous w.next :=
      fun w hw => (hsent w hw).append out
    have hchain' : Chain (fun i cur next => Wrote (log ++ out) i (cur.map address) next)
        s.world.history := hchain.mono fun _ _ _ hw => hw.append out
    rcases step_cases hstep with ⟨ev, w', eo, -, hw, rfl, rfl⟩ | ⟨c, -, rfl, rfl⟩ |
      ⟨i, -, rfl, rfl⟩ | ⟨i, x, t, r, -, -, -, rfl, rfl⟩ |
      ⟨i, x, t, o, k, w', eo, -, -, -, ha, rfl, rfl⟩ |
      ⟨i, x, t, o, k, w', r, eo, -, -, -, ha, rfl, rfl⟩
    -- a late write is stored over the value it names
    · rcases Store.deliver_cases hw with ⟨rfl, rfl⟩ | ⟨w, hmem, hcur, rfl, rfl⟩
      · exact ⟨hsent', hchain'⟩
      · refine ⟨hsent', ?_, hchain'⟩
        show Wrote _ w.task (s.world.current.map address) w.next
        rw [hcur]
        exact hsent' w hmem
    · exact ⟨hsent', hchain'⟩
    · exact ⟨hsent', hchain'⟩
    · exact ⟨hsent', hchain'⟩
    -- every operation of the store is answered at once
    · rcases Store.answer_cases ha with ⟨rfl, rfl⟩ | ⟨p, n, rfl, -, -, -⟩ | ⟨p, n, rfl, -, -⟩
      · exact ⟨hsent', hchain'⟩
      · cases x <;> simp [Store.world, Store.answer] at ha
      · cases x <;> simp [Store.world, Store.answer] at ha
    · rcases Store.answer_cases ha with ⟨rfl, rfl⟩ | ⟨p, n, rfl, hcur, rfl, rfl⟩ |
        ⟨p, n, rfl, rfl, rfl⟩
      · exact ⟨hsent', hchain'⟩
      · refine ⟨hsent', ?_, hchain'⟩
        show Wrote _ i (s.world.current.map address) n
        rw [hcur]
        exact ⟨t.call, t.trace, r, by simp⟩
      · refine ⟨fun w hw => ?_, hchain'⟩
        rcases List.mem_cons.mp hw with rfl | hw
        · exact ⟨t.call, t.trace, r, by simp⟩
        · exact hsent' w hw
  exact key.2

/-- What the response to an operation of task `i` tells of the store: a value
    read was stored and has its address, a confirmed write is stored. -/
def Tells (address : C → A) (history : List (Entry C)) (i : Nat) :
    (o : Op C A Q) → Resp C A F Ans o → Prop
  | .read, r => ∀ c a, r = .ok (some (c, a)) → a = address c ∧ ∃ e ∈ history, e.value = c
  | .write _ next, r => r = .ok () → ⟨i, next⟩ ∈ history
  | .ask _, _ => True

omit [DecidableEq A] in
theorem Tells.mono {history history' : List (Entry C)} {i : Nat} {o : Op C A Q}
    {r : Resp C A F Ans o} (h : Tells address history i o r)
    (hsub : ∀ e ∈ history, e ∈ history') : Tells address history' i o r := by
  cases o with
  | read =>
    intro c a hc
    obtain ⟨ha, e, he, hv⟩ := h c a hc
    exact ⟨ha, e, hsub e he, hv⟩
  | write previous next => exact fun hok => hsub _ (h hok)
  | ask q => trivial

theorem answer_tells {st st' : Store C A} {i : Nat} {o : Op C A Q} {x : Choice F Ans}
    {r : Resp C A F Ans o} {out : List (Entry C)}
    (h : st.answer address i o x = some (st', some r, out)) : Tells address st'.history i o r := by
  cases o with
  | read =>
    intro c a hr
    subst hr
    cases x <;> simp only [Store.answer, Option.some.injEq, Prod.mk.injEq, reduceCtorEq, false_and,
      and_false, Except.ok.injEq] at h
    obtain ⟨rfl, h, -⟩ := h
    -- the value read is one of the history, however old
    obtain ⟨c', hc, hpair⟩ := Option.map_eq_some_iff.mp h
    cases hpair
    obtain ⟨e, he, rfl⟩ := Option.map_eq_some_iff.mp hc
    exact ⟨rfl, e, List.mem_of_mem_drop (List.mem_of_head? he), rfl⟩
  | write previous next =>
    intro hr
    subst hr
    cases x <;> simp only [Store.answer, Option.some.injEq, Prod.mk.injEq, reduceCtorEq, false_and,
      and_false] at h
    split at h
    · simp only [Option.some.injEq, Prod.mk.injEq] at h
      obtain ⟨rfl, -, -⟩ := h
      exact List.mem_cons_self
    · cases h
  | ask q => trivial

/-- The store forgets no value. -/
theorem answer_history {st st' : Store C A} {i : Nat} {o : Op C A Q} {x : Choice F Ans}
    {r : Option (Resp C A F Ans o)} {out : List (Entry C)}
    (h : st.answer address i o x = some (st', r, out)) : ∀ e ∈ st.history, e ∈ st'.history := by
  intro e he
  rcases Store.answer_cases h with ⟨rfl, -⟩ | ⟨p, n, -, -, rfl, -⟩ | ⟨p, n, -, rfl, -⟩
  · exact he
  · exact List.mem_cons_of_mem _ he
  · exact he

theorem deliver_history {st st' : Store C A} {e : Delivery} {out : List (Entry C)}
    (h : st.deliver address e = some (st', out)) : ∀ e ∈ st.history, e ∈ st'.history := by
  intro x hx
  rcases Store.deliver_cases h with ⟨rfl, -⟩ | ⟨w, -, -, rfl, -⟩
  · exact hx
  · exact List.mem_cons_of_mem _ hx

/-- Every response tells the truth, of the store it is given in and of every later one. -/
theorem did_tells (h : Run (system address body) es log s) {i : Nat} {c : κ}
    {t : Trace (Op C A Q) (Resp C A F Ans)} {o : Op C A Q} {r : Resp C A F Ans o}
    (hd : .did i c t o r ∈ log) : Tells address s.world.history i o r := by
  refine h.induct (P := fun log s => ∀ i c t o r, .did i c t o r ∈ log →
    Tells address s.world.history i o r) (by simp) ?_ i c t o r hd
  rintro log s e s' out hold - hstep i c t o r hd
  rcases step_cases hstep with ⟨ev, w', eo, -, hw, rfl, rfl⟩ | ⟨c', -, rfl, rfl⟩ |
    ⟨j, -, rfl, rfl⟩ | ⟨j, x, t', r', -, -, -, rfl, rfl⟩ |
    ⟨j, x, t', o', k, w', eo, -, -, -, ha, rfl, rfl⟩ |
    ⟨j, x, t', o', k, w', r', eo, -, -, -, ha, rfl, rfl⟩
  · exact (hold i c t o r (by simpa using hd)).mono (deliver_history hw)
  · exact hold i c t o r (by simpa using hd)
  · exact hold i c t o r (by simpa using hd)
  · exact hold i c t o r (by simpa using hd)
  · exact (hold i c t o r (by simpa using hd)).mono (answer_history ha)
  · rcases List.mem_append.mp hd with hd | hd
    · exact (hold i c t o r hd).mono (answer_history ha)
    · rcases List.mem_append.mp hd with hd | hd
      · simp at hd
      · cases List.mem_singleton.mp hd
        exact answer_tells ha

/-- What a task that has ended was told, by the final history. -/
theorem returned_tells (h : Run (system address body) es log s) {i : Nat} {c : κ}
    {t : Trace (Op C A Q) (Resp C A F Ans)} {r : Except E α} (hr : .returned i c t r ∈ log)
    {y : (o : Op C A Q) × Resp C A F Ans o} (hy : y ∈ t) :
    Tells address s.world.history i y.1 y.2 := by
  obtain ⟨t', hd⟩ := ((traces h).returned i c t r hr).performed y hy
  exact did_tells h hd

/-! ## Programs that derive what they write -/

/-- The write replaces a value that was read, by a step of `T` from it. -/
def Derives (T : Option C → C → Prop) (t : Trace (Op C A Q) (Resp C A F Ans)) : Op C A Q → Prop
  | .write previous next =>
    ∃ cur : Option (C × A), ⟨.read, .ok cur⟩ ∈ t ∧ previous = cur.map Prod.snd ∧
      T (cur.map Prod.fst) next
  | _ => True

variable {T : κ → Option C → C → Prop}
  {outcome : κ → Trace (Op C A Q) (Resp C A F Ans) → Except E α → Prop}

/-- If every call derives its writes, the stored values form a chain of such
    steps, each of the call whose task stored the value. -/
theorem history_derived (hinj : Function.Injective address)
    (hbody : ∀ c, wp (fun t o => Derives (T c) t o) (outcome c) [] (body c))
    (h : Run (system address body) es log s) :
    Chain (fun i cur next => ∃ c, (spawned es)[i]? = some c ∧ T c cur next) s.world.history := by
  refine (history_chain h).mono fun i cur next hw => ?_
  obtain ⟨c, t, r, hd⟩ := hw
  have hmeets : Derives (T c) t (.write (cur.map address) next) := meets_of_wp hbody h _ hd
  obtain ⟨read, hread, hprev, hT⟩ := hmeets
  have htraced := (traces h).did i c t _ r hd
  refine ⟨c, htraced.call, ?_⟩
  -- the value at the address that was named is the value that was read
  have hcur : read.map Prod.fst = cur := by
    cases read with
    | none =>
      cases cur with
      | none => rfl
      | some c' => simp at hprev
    | some ca =>
      obtain ⟨v, a⟩ := ca
      obtain ⟨t', hd'⟩ := htraced.performed _ hread
      obtain ⟨rfl, -⟩ := did_tells h hd' v a rfl
      cases cur with
      | none => simp at hprev
      | some c' =>
        rw [Option.map_some, Option.map_some, Option.some.injEq] at hprev
        exact congrArg some (hinj hprev).symm
  rwa [← hcur]

end Runs

end Register
