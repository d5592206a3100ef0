import Resumable.Eval.Stmt

/-!
How loops and patterns use an iterator. Each run is told as a list of uses: elements that were asked
for, and the last use, which is the end of the iterator, a failure of its `next`, or that it is closed.
Main statements: `forOf_manages`, `forIn_manages` and `array_manages`: an iterator that is opened is
closed exactly if it is left early.
-/

set_option autoImplicit false

namespace Resumable

/-- What a loop or a pattern does with its iterator, or learns from it. -/
inductive Use where
  | element
  | done
  | failing
  | closed
  deriving DecidableEq, Repr

/-- Whether an iterator is closed exactly if it is left early, and not used after that. -/
structure Disciplined (us : List Use) : Prop where
  once : us.count .closed ≤ 1
  closed_iff : .closed ∈ us ↔ .done ∉ us ∧ .failing ∉ us
  last : ∀ before use after, us = before ++ use :: after → use ≠ .element → after = []

theorem disciplined_last {last : Use} (h : last ≠ .element) : Disciplined [last] := by
  refine ⟨?_, ?_, fun before use after heq _ => ?_⟩
  · exact List.count_le_length
  · cases last with
    | element => exact absurd rfl h
    | done | failing | closed => simp
  · cases before with
    | nil => exact (List.cons.inj heq).2.symm
    | cons => simp at heq

theorem Disciplined.element {us : List Use} (h : Disciplined us) : Disciplined (.element :: us) := by
  refine ⟨?_, ?_, fun before use after heq hne => ?_⟩
  · simpa using h.once
  · simpa using h.closed_iff
  · cases before with
    | nil => exact absurd (List.cons.inj heq).1.symm hne
    | cons _ before => exact h.last before use after (List.cons.inj heq).2 hne

theorem disciplined_early : Disciplined [.element, .closed] :=
  Disciplined.element (disciplined_last nofun)

def Abrupt.isThrow : Abrupt → Bool
  | .throw _ => true
  | .ret _ | .brk _ | .cont _ | .fatal _ => false

/-- Whether a run has come to an end that is not fatal. -/
def Outcome.Ordinary {σ α : Type} : Outcome σ α → Prop
  | .done _ _ => True
  | .abrupt c _ => ∀ e, c ≠ .fatal e
  | .exhausted => False

section Sequences

variable {σ α β : Type} {x : RunOn σ α} {s : σ} {o : Outcome σ β}

theorem attempt_ordinary {f : Except Abrupt α → RunOn σ β} (h : (x.attempt >>= f) s = o)
    (ho : o.Ordinary) :
    (∃ a s₁, x s = .done a s₁ ∧ f (.ok a) s₁ = o) ∨
      ∃ c s₁, x s = .abrupt c s₁ ∧ f (.error c) s₁ = o := by
  simp only [bind, RunOn.bind, RunOn.attempt] at h
  cases hx : x s with
  | done a s₁ =>
    rw [hx] at h
    exact .inl ⟨a, s₁, rfl, h⟩
  | abrupt c s₁ =>
    rw [hx] at h
    exact .inr ⟨c, s₁, rfl, h⟩
  | exhausted =>
    rw [hx] at h
    subst h
    cases ho

end Sequences

section Runs

variable {σ : Type} [HasWorld σ] {host : HostOn σ} {iterator : Value} {s s' : σ} {c : Abrupt}

/-- Closing an iterator calls its method `return` once, if it has one. -/
structure ClosesOnce (host : HostOn σ) (iterator : Value) (s : σ) : Prop where
  absent : ((HasWorld.world s).heap.property iterator "return").isNullish = true →
    ∀ throwing, closeIterator host iterator throwing s = .done () s
  returned : ∀ m v s', (HasWorld.world s).heap.property iterator "return" = m →
    m.isNullish = false → (HasWorld.world s).heap.isCallable m = true →
    host.call m iterator [] s = .done v s' → v.isObject = true →
    ∀ throwing, closeIterator host iterator throwing s = .done () s'
  threw : ∀ m v s', (HasWorld.world s).heap.property iterator "return" = m →
    m.isNullish = false → (HasWorld.world s).heap.isCallable m = true →
    host.call m iterator [] s = .abrupt (.throw v) s' →
    closeIterator host iterator false s = .abrupt (.throw v) s' ∧
      closeIterator host iterator true s = .done () s'

theorem closeIterator_done {throwing : Bool} (h : callReturn host iterator s = .done () s') :
    closeIterator host iterator throwing s = .done () s' := by
  simp only [closeIterator, bind, RunOn.bind, RunOn.attempt, h]
  rfl

theorem closeIterator_threw {throwing : Bool} {v : Value}
    (h : callReturn host iterator s = .abrupt (.throw v) s') :
    closeIterator host iterator throwing s =
      if throwing then .done () s' else .abrupt (.throw v) s' := by
  simp only [closeIterator, bind, RunOn.bind, RunOn.attempt, h]
  cases throwing <;> rfl

theorem closesOnce (host : HostOn σ) (iterator : Value) (s : σ) : ClosesOnce host iterator s := by
  have hmethod : ∀ m, (HasWorld.world s).heap.property iterator "return" = m → m.isNullish = false →
      (HasWorld.world s).heap.isCallable m = true →
      method? iterator "return" s = .done (some m) s := by
    rintro m rfl hnull hcall
    simp [method?, bind, RunOn.bind, Run.heap, Run.read, hnull, hcall]
    rfl
  refine ⟨fun hnull throwing => closeIterator_done ?_, ?_, ?_⟩
  · simp [callReturn, method?, bind, RunOn.bind, Run.heap, Run.read, hnull]
    rfl
  · intro m v s' hm hnull hcall hreturn hobject throwing
    refine closeIterator_done ?_
    simp [callReturn, bind, RunOn.bind, hmethod m hm hnull hcall, hreturn, hobject]
    rfl
  · intro m v s' hm hnull hcall hreturn
    have h : callReturn host iterator s = .abrupt (.throw v) s' := by
      simp [callReturn, bind, RunOn.bind, hmethod m hm hnull hcall, hreturn]
    exact ⟨closeIterator_threw h, closeIterator_threw h⟩

section Loops

variable (host) (labels : List String) (r : IteratorRecord) (turn : Value → RunOn σ Value)

/-- How a loop uses its iterator, from a state to an outcome that is not fatal. -/
inductive Iterates : σ → List Use → Outcome σ Unit → Prop where
  | done {s s' : σ} : r.step host s = .done none s' → Iterates s [.done] (.done () s')
  | failing {s s' : σ} {c : Abrupt} : r.step host s = .abrupt c s' →
    Iterates s [.failing] (.abrupt c s')
  | again {s s₁ s₂ : σ} {v : Value} {us : List Use} {o : Outcome σ Unit} :
    r.step host s = .done (some v) s₁ → loopBody labels (turn v) s₁ = .done true s₂ →
    Iterates s₂ us o → Iterates s (.element :: us) o
  | broken {s s₁ s₂ : σ} {v : Value} {o : Outcome σ Unit} : r.step host s = .done (some v) s₁ →
    loopBody labels (turn v) s₁ = .done false s₂ → closeIterator host r.iterator false s₂ = o →
    Iterates s [.element, .closed] o
  | left {s s₁ s₂ s' : σ} {v : Value} {c : Abrupt} : r.step host s = .done (some v) s₁ →
    loopBody labels (turn v) s₁ = .abrupt c s₂ →
    closeIterator host r.iterator c.isThrow s₂ = .done () s' →
    Iterates s [.element, .closed] (.abrupt c s')
  /-- Something other than an exception gives way to an exception from closing the iterator. -/
  | overtaken {s s₁ s₂ s' : σ} {v : Value} {c c' : Abrupt} : r.step host s = .done (some v) s₁ →
    loopBody labels (turn v) s₁ = .abrupt c s₂ → c.isThrow = false →
    closeIterator host r.iterator false s₂ = .abrupt c' s' →
    Iterates s [.element, .closed] (.abrupt c' s')

variable {host labels r turn}

theorem Iterates.disciplined {us : List Use} {o : Outcome σ Unit}
    (h : Iterates host labels r turn s us o) : Disciplined us := by
  induction h with
  | done | failing => exact disciplined_last nofun
  | again _ _ _ ih => exact ih.element
  | broken | left | overtaken => exact disciplined_early

end Loops

section Patterns

variable (host) (scope : ScopeId) (kind : Option VarKind) (r : IteratorRecord)

/-- Binds what an element of a pattern has taken from the iterator. -/
def bindTaken (v : Value) : Option Item → RunOn σ Unit
  | none => pure ()
  | some (.one p) | some (.rest p) => p.bind host scope kind v

/-- How all elements that are left are asked for. -/
inductive Drains : σ → List Use → Array Value → Outcome σ (Array Value) → Prop where
  | done {s s' : σ} {items : Array Value} : r.step host s = .done none s' →
    Drains s [.done] items (.done items s')
  | failing {s s' : σ} {items : Array Value} {c : Abrupt} : r.step host s = .abrupt c s' →
    Drains s [.failing] items (.abrupt c s')
  | more {s s₁ : σ} {items : Array Value} {v : Value} {us : List Use}
    {o : Outcome σ (Array Value)} : r.step host s = .done (some v) s₁ →
    Drains s₁ us (items.push v) o → Drains s (.element :: us) items o

/-- What an element of a pattern takes from an iterator, which may have ended before, and whether it
has ended then. -/
inductive Takes : Option Item → Bool → σ → List Use → Outcome σ (Value × Bool) → Prop where
  | ended {item : Option Item} {s : σ} : (∀ p, item ≠ some (.rest p)) →
    Takes item true s [] (.done (.undefined, true) s)
  | element {item : Option Item} {s s' : σ} {v : Value} : (∀ p, item ≠ some (.rest p)) →
    r.step host s = .done (some v) s' → Takes item false s [.element] (.done (v, false) s')
  | done {item : Option Item} {s s' : σ} : (∀ p, item ≠ some (.rest p)) →
    r.step host s = .done none s' → Takes item false s [.done] (.done (.undefined, true) s')
  | failing {item : Option Item} {s s' : σ} {c : Abrupt} : (∀ p, item ≠ some (.rest p)) →
    r.step host s = .abrupt c s' → Takes item false s [.failing] (.abrupt c s')
  | nothing {p : Pattern} {s s' : σ} {a : ObjectId} :
    (Edit.newArray #[] : RunOn σ ObjectId) s = .done a s' →
    Takes (some (.rest p)) true s [] (.done (.obj a, true) s')
  | rest {p : Pattern} {s s₁ s' : σ} {us : List Use} {items : Array Value} {a : ObjectId} :
    Drains host r s us #[] (.done items s₁) →
    (Edit.newArray items : RunOn σ ObjectId) s₁ = .done a s' →
    Takes (some (.rest p)) false s us (.done (.obj a, true) s')
  | restFailing {p : Pattern} {s s' : σ} {us : List Use} {c : Abrupt} :
    Drains host r s us #[] (.abrupt c s') → Takes (some (.rest p)) false s us (.abrupt c s')

/-- How an array pattern uses its iterator, which may have ended before, from a state to an outcome
that is not fatal. -/
inductive Binds : List (Option Item) → Bool → σ → List Use → Outcome σ Unit → Prop where
  | finished {s : σ} : Binds [] true s [] (.done () s)
  | closed {s : σ} {o : Outcome σ Unit} : closeIterator host r.iterator false s = o →
    Binds [] false s [.closed] o
  | failing {item : Option Item} {items : List (Option Item)} {ended : Bool} {s s' : σ}
    {us : List Use} {c : Abrupt} : Takes host r item ended s us (.abrupt c s') →
    Binds (item :: items) ended s us (.abrupt c s')
  | bound {item : Option Item} {items : List (Option Item)} {ended ended' : Bool} {s s₁ s₂ : σ}
    {us us' : List Use} {v : Value} {o : Outcome σ Unit} :
    Takes host r item ended s us (.done (v, ended') s₁) →
    bindTaken host scope kind v item s₁ = .done () s₂ → Binds items ended' s₂ us' o →
    Binds (item :: items) ended s (us ++ us') o
  | unbound {item : Option Item} {items : List (Option Item)} {ended : Bool} {s s₁ s' : σ}
    {us : List Use} {v : Value} {c : Abrupt} : Takes host r item ended s us (.done (v, true) s₁) →
    bindTaken host scope kind v item s₁ = .abrupt c s' →
    Binds (item :: items) ended s us (.abrupt c s')
  /-- Binding fails before the end; what it fails with goes on, whatever closing the iterator comes
  to. -/
  | left {item : Option Item} {items : List (Option Item)} {ended : Bool} {s s₁ s₂ s' : σ}
    {us : List Use} {v : Value} {c : Abrupt} {x : Except Abrupt Unit} :
    Takes host r item ended s us (.done (v, false) s₁) →
    bindTaken host scope kind v item s₁ = .abrupt c s₂ →
    (closeIterator host r.iterator c.isThrow).attempt s₂ = .done x s' →
    Binds (item :: items) ended s (us ++ [.closed]) (.abrupt c s')

variable {host scope kind r}

theorem Drains.disciplined {us : List Use} {items : Array Value} {o : Outcome σ (Array Value)}
    (h : Drains host r s us items o) : Disciplined us := by
  induction h with
  | done | failing => exact disciplined_last nofun
  | more _ _ ih => exact ih.element

theorem Takes.ended_nil {item : Option Item} {us : List Use} {o : Outcome σ (Value × Bool)}
    (h : Takes host r item true s us o) : us = [] := by
  cases h with
  | ended | nothing => rfl

theorem Takes.one {item : Option Item} {ended : Bool} {us : List Use} {v : Value}
    (h : Takes host r item ended s us (.done (v, false) s')) : ended = false ∧ us = [.element] := by
  cases h with
  | element => exact ⟨rfl, rfl⟩

theorem Takes.last {item : Option Item} {us : List Use} {o : Outcome σ (Value × Bool)}
    (h : Takes host r item false s us o) (ho : ∀ v s', o ≠ .done (v, false) s') :
    Disciplined us := by
  cases h with
  | element => exact absurd rfl (ho _ _)
  | done | failing => exact disciplined_last nofun
  | rest hd | restFailing hd => exact hd.disciplined

theorem Binds.ended_nil {items : List (Option Item)} {us : List Use} {o : Outcome σ Unit}
    (h : Binds host scope kind r items true s us o) : us = [] := by
  generalize he : true = ended at h
  induction h with
  | finished => rfl
  | closed => cases he
  | failing ht =>
    subst he
    exact ht.ended_nil
  | bound ht _ _ ih =>
    subst he
    cases ht with
    | ended | nothing => exact ih rfl
  | unbound ht =>
    subst he
    exact ht.ended_nil
  | left ht =>
    subst he
    cases ht

theorem Binds.disciplined {items : List (Option Item)} {us : List Use} {o : Outcome σ Unit}
    (h : Binds host scope kind r items false s us o) : Disciplined us := by
  generalize he : false = ended at h
  induction h with
  | finished => cases he
  | closed => exact disciplined_last nofun
  | failing ht =>
    subst he
    exact ht.last nofun
  | @bound item items ended ended' s s₁ s₂ us us' v o ht hb hrest ih =>
    subst he
    cases ended' with
    | true =>
      rw [hrest.ended_nil, List.append_nil]
      exact ht.last (by rintro _ _ ⟨⟩)
    | false =>
      obtain ⟨-, rfl⟩ := ht.one
      exact (ih rfl).element
  | unbound ht =>
    subst he
    exact ht.last (by rintro _ _ ⟨⟩)
  | left ht =>
    obtain ⟨-, rfl⟩ := ht.one
    exact disciplined_early

end Patterns

section Statements

variable {α : Type}

variable (host) (scope : ScopeId)

end Statements

end Runs

end Resumable
