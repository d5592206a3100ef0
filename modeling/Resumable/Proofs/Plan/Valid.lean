import Resumable.Proofs.Plan.Layout

/-!
Built code is well formed: every target lies inside it, and a store follows every suspend
instruction. Main statements: `validate_iff_closed`: this is what the check of a plan finds;
`validate_laid`: built code passes it.
-/

set_option autoImplicit false

namespace Resumable

attribute [simp] Instr.targets

def TargetsBelow (hi : Nat) (code : List Instr) : Prop := ∀ i ∈ code, ∀ t ∈ i.targets, t < hi

@[simp] theorem targetsBelow_nil (hi : Nat) : TargetsBelow hi [] := by simp [TargetsBelow]

@[simp] theorem targetsBelow_cons (hi : Nat) (i : Instr) (code : List Instr) :
    TargetsBelow hi (i :: code) ↔ (∀ t ∈ i.targets, t < hi) ∧ TargetsBelow hi code := by
  simp [TargetsBelow]

@[simp] theorem targetsBelow_append (hi : Nat) (c d : List Instr) :
    TargetsBelow hi (c ++ d) ↔ TargetsBelow hi c ∧ TargetsBelow hi d := by
  simp [TargetsBelow, or_imp, forall_and]

/-- Whether control stays before the end of a fragment, wherever it enters and goes on. -/
def Fragment.Bounded (base : Nat) (f : Fragment) : Prop :=
  ∀ hi, base + f.size ≤ hi → f.entry < hi ∧ TargetsBelow hi f.code

theorem skip_bounded {base next : Nat} (h : next < base) : (Fragment.skip next).Bounded base := by
  intro hi hle
  simp only [Fragment.size_skip] at hle
  exact ⟨by simp only [Fragment.skip]; omega, targetsBelow_nil _⟩

theorem Fragment.Bounded.entry_lt {base : Nat} {f : Fragment} (h : f.Bounded base) :
    f.entry < base + f.size :=
  (h _ (Nat.le_refl _)).1

theorem suspendInstr_targets {e : Expr} {store : Nat} {i : Instr}
    (h : e.suspendInstr? store = some i) : i.targets = [store] ∧ i.isSuspend = true := by
  rw [Expr.suspendInstr?.eq_def] at h
  split at h
  all_goals
    cases h
    try exact ⟨rfl, rfl⟩

theorem EffectsLaid.bounded {inAsync : Bool} {base next : Nat} {es : List Expr} {f : Fragment}
    (h : EffectsLaid inAsync base next es f) (hn : next < base) : f.Bounded base := by
  induction h with
  | nil => exact skip_bounded hn
  | plain _ _ ih =>
    intro hi hle
    simp at hle
    have hrest := ih hn hi (by omega)
    simp [hrest]
    omega
  | suspend _ _ _ _ hsuspend ih =>
    intro hi hle
    simp at hle
    have hrest := ih hn hi (by omega)
    have ht := (suspendInstr_targets hsuspend).1
    simp only [targetsBelow_append, targetsBelow_cons, ht]
    simp [hrest]
    omega
  | seq _ _ _ ih ih' =>
    intro hi hle
    simp at hle
    have hrest := ih hn
    have hfirst := ih' hrest.entry_lt hi (by omega)
    simp [hrest hi (by omega), hfirst]

section Pieces

variable {inAsync : Bool} {base : Nat}

theorem ConditionLaid.bounded {onTrue onFalse : Nat} {e : Expr} {f : Fragment}
    (h : ConditionLaid inAsync base onTrue onFalse e f) (ht : onTrue < base) (hf : onFalse < base) :
    f.Bounded base := by
  intro hi hle
  cases h with
  | plain _ =>
    simp [Fragment.one] at hle ⊢
    omega
  | seq _ _ hfirst =>
    simp at hle
    have hfirst := hfirst.bounded (by omega) hi (by omega)
    simp [hfirst]
    omega

theorem TestLaid.bounded {onTrue onFalse : Nat} {e : Option Expr} {f : Fragment}
    (h : TestLaid inAsync base onTrue onFalse e f) (ht : onTrue < base) (hf : onFalse < base) :
    f.Bounded base := by
  cases h with
  | none => exact skip_bounded ht
  | some h => exact h.bounded ht hf

theorem UpdateLaid.bounded {next : Nat} {e : Option Expr} {f : Fragment}
    (h : UpdateLaid inAsync base next e f) (hn : next < base) : f.Bounded base := by
  cases h with
  | none => exact skip_bounded hn
  | some h => exact h.bounded hn

theorem InitLaid.bounded {next : Nat} {init : ForInit} {f : Fragment}
    (h : InitLaid inAsync base next init f) (hn : next < base) : f.Bounded base := by
  cases h with
  | absent => exact skip_bounded hn
  | expr h => exact h.bounded hn
  | declare _ =>
    intro hi hle
    simp [Fragment.one] at hle ⊢
    omega

end Pieces

theorem buildTests_bounded (subject : String) (base otherwise : Nat) (cases : List (Case × Nat))
    (ho : otherwise < base) (hc : ∀ c ∈ cases, c.2 < base) :
    (buildTests subject base otherwise cases).Bounded base := by
  induction cases with
  | nil =>
    intro hi hle
    simp [buildTests, Fragment.one] at hle ⊢
    omega
  | cons c cases ih =>
    obtain ⟨c, entry⟩ := c
    have ih := ih fun d hd => hc d (by simp [hd])
    have he : entry < base := hc (c, entry) (by simp)
    simp only [buildTests]
    split
    · exact ih
    · intro hi hle
      simp [Fragment.close] at hle ⊢
      have ih := ih hi (by omega)
      simp [ih]
      omega

theorem inScope_bounded {base next : Nat} {functions : List FunctionDecl} {f : Fragment}
    (h : f.Bounded (base + 1)) (hn : next < base) : (f.inScope base next functions).Bounded base := by
  intro hi hle
  simp only [Fragment.size_inScope] at hle
  have h := h hi (by omega)
  simp [Fragment.inScope, h]
  omega

theorem step_bounded {base : Nat} {u : Fragment} (ownScope : Bool) (h : u.Bounded base) :
    (u.step ownScope base).Bounded base := by
  rw [Fragment.step]
  split
  · intro hi hle
    simp [Fragment.close] at hle ⊢
    simp [h hi (by omega)]
    omega
  · exact h

theorem defaultEntry_lt {exit hi : Nat} {cases : List (Case × Nat)} (he : exit < hi)
    (hc : ∀ c ∈ cases, c.2 < hi) : defaultEntry exit cases < hi := by
  rw [defaultEntry]
  split
  · rename_i h
    exact hc _ (List.mem_of_find?_eq_some h)
  · exact he

/-- The other entries of a part lie before its end as well. -/
def Part.EntriesBelow (hi : Nat) : Part → Prop
  | .cases cs entries => cs.length = entries.length ∧ ∀ e ∈ entries, e < hi
  | .handler _ onThrow => ∀ e ∈ onThrow, e < hi
  | .finalizer _ onExit => ∀ e ∈ onExit, e < hi
  | _ => True

theorem leaf_bounded {base next : Nat} (s : Stmt) (hn : next < base) :
    (Fragment.one base (s.leafInstr next)).Bounded base := by
  intro hi hle
  simp [Fragment.one] at hle ⊢
  cases s <;> simp [Stmt.leafInstr] <;> omega

theorem Laid.bounded {around : Surroundings} {base next : Nat} {part : Part} {f : Fragment}
    (h : Laid around base next part f) (hn : next < base) :
    f.Bounded base ∧ part.EntriesBelow (base + f.size) := by
  induction h with
  | leaf _ _ => exact ⟨leaf_bounded _ hn, trivial⟩
  | labeled _ _ ih | blockStmt _ _ ih | forPlain _ _ _ ih | forIn _ _ ih | forOf _ _ ih
  | alternative _ ih => exact ⟨(ih hn).1, trivial⟩
  | enclosed _ _ _ _ ih =>
    refine ⟨fun hi hle => ?_, trivial⟩
    simp [Fragment.enclose] at hle ⊢
    have ih := (ih (by omega)).1 hi (by omega)
    simp [ih]
    omega
  | expr _ he => exact ⟨he.bounded hn, trivial⟩
  | ifElse _ _ _ ht ihn ihy =>
    have hn' := (ihn hn).1
    have hy := (ihy (by omega)).1
    have ht := ht.bounded hy.entry_lt (by have := hn'.entry_lt; omega)
    refine ⟨fun hi hle => ?_, trivial⟩
    simp at hle
    simp [hn' hi (by omega), hy hi (by omega), ht hi (by omega)]
  | whileDo _ _ ht ih | doWhile _ _ ht ih =>
    have hb := (ih (by omega)).1
    have ht := ht.bounded hb.entry_lt (by omega)
    refine ⟨fun hi hle => ?_, trivial⟩
    simp [Fragment.testLoop] at hle ⊢
    simp [hb hi (by omega), ht hi (by omega)]
    omega
  | forScoped _ _ _ ih => exact ⟨inScope_bounded (ih (by omega)).1 hn, trivial⟩
  | headLoop hu hc _ ht hi ih =>
    have hu := hc ▸ step_bounded _ (hu.bounded (by omega))
    have hb := (ih hu.entry_lt).1
    have ht := ht.bounded hb.entry_lt (by omega)
    have hi := hi.bounded (by omega)
    refine ⟨fun top hle => ?_, trivial⟩
    simp [Fragment.headLoop] at hle ⊢
    simp [hu top (by omega), hb top (by omega), ht top (by omega), hi top (by omega)]
    omega
  | iteration _ ih =>
    have hb := (ih (by omega)).1
    refine ⟨fun hi hle => ?_, trivial⟩
    simp [Fragment.iteration] at hle ⊢
    simp [hb hi (by omega)]
    omega
  | tryCatch _ _ _ _ ihf ihh ihb =>
    obtain ⟨hf, he⟩ := ihf hn
    obtain ⟨hh, ht⟩ := ihh (by omega)
    have hb := (ihb (by omega)).1
    refine ⟨fun hi hle => ?_, trivial⟩
    simp [Fragment.protect] at hle ⊢
    simp [hf hi (by omega), hh hi (by omega), hb hi (by omega)]
    refine ⟨by omega, by omega, fun t h => ?_⟩
    rcases h with h | h
    · have := ht t h
      omega
    · have := he t h
      omega
  | @switch _ base _ _ _ cases entries name c _ _ ih =>
    obtain ⟨hc, hl, he⟩ := ih (by omega)
    have hz : ∀ d ∈ cases.zip entries, d.2 < base + 2 + c.size :=
      fun d hd => he d.2 (List.of_mem_zip hd).2
    have hd : defaultEntry (base + 1) (cases.zip entries) < base + 2 + c.size :=
      defaultEntry_lt (by omega) hz
    have ht := buildTests_bounded name _ _ _ hd hz
    refine ⟨fun hi hle => ?_, trivial⟩
    simp [Fragment.switch] at hle ⊢
    simp [hc hi (by omega), ht hi (by omega)]
    omega
  | block _ ih => exact ⟨inScope_bounded (ih (by omega)).1 hn, trivial⟩
  | noAlternative | nil => exact ⟨skip_bounded hn, trivial⟩
  | noFinalizer | noHandler => exact ⟨skip_bounded hn, by simp [Part.EntriesBelow]⟩
  | finalizer _ ih =>
    have hf := (ih (by omega)).1
    refine ⟨fun hi hle => ?_, ?_⟩
    · simp at hle
      simp [hf hi (by omega)]
      omega
    · have := hf.entry_lt
      simp [Part.EntriesBelow]
      omega
  | handler _ ih =>
    have hf := (ih (by omega)).1
    refine ⟨fun hi hle => ?_, ?_⟩
    · simp at hle
      simp [hf hi (by omega)]
      omega
    · simp [Part.EntriesBelow]
      omega
  | cons _ _ ih ih' =>
    have hrest := (ih hn).1
    have hfirst := (ih' hrest.entry_lt).1
    refine ⟨fun hi hle => ?_, trivial⟩
    simp at hle
    simp [hrest hi (by omega), hfirst hi (by omega)]
  | noCase => exact ⟨skip_bounded hn, rfl, by simp⟩
  | case _ _ ih ih' =>
    obtain ⟨hc, hl, he⟩ := ih hn
    have hb := (ih' hc.entry_lt).1
    refine ⟨fun hi hle => ?_, by simp [hl], ?_⟩
    · simp at hle
      simp [hc hi (by omega), hb hi (by omega)]
    · have := hb.entry_lt
      simp only [Fragment.size_mk, List.length_append, Fragment.length_code, List.mem_cons,
        forall_eq_or_imp]
      exact ⟨by omega, fun e h => by have := he e h; omega⟩

/-- Whether a store follows every suspend instruction of code that stands at `base`. -/
def StoresFollow (base : Nat) (code : List Instr) : Prop :=
  ∀ i ∈ code, i.isSuspend = true →
    ∃ k slot past, i.targets = [base + k] ∧ code[k]? = some (.store slot past)

theorem storesFollow_nil (base : Nat) : StoresFollow base [] := by simp [StoresFollow]

theorem storesFollow_append {base : Nat} {c d : List Instr} (hc : StoresFollow base c)
    (hd : StoresFollow (base + c.length) d) : StoresFollow base (c ++ d) := by
  intro i hi hs
  rcases List.mem_append.1 hi with hi | hi
  · obtain ⟨k, slot, past, ht, hk⟩ := hc i hi hs
    exact ⟨k, slot, past, ht, List.getElem?_append_left (List.getElem?_eq_some_iff.1 hk).1 ▸ hk⟩
  · obtain ⟨k, slot, past, ht, hk⟩ := hd i hi hs
    refine ⟨c.length + k, slot, past, by rw [ht, Nat.add_assoc], ?_⟩
    rw [List.getElem?_append_right (by omega), Nat.add_sub_cancel_left, hk]

theorem storesFollow_one {base : Nat} {i : Instr} (hi : i.isSuspend = false) :
    StoresFollow base [i] := by
  simp [StoresFollow, hi]

theorem storesFollow_cons {base : Nat} {i : Instr} {code : List Instr} (hi : i.isSuspend = false)
    (h : StoresFollow (base + 1) code) : StoresFollow base (i :: code) :=
  storesFollow_append (storesFollow_one hi) h

theorem EffectsLaid.storesFollow {inAsync : Bool} {base next : Nat} {es : List Expr} {f : Fragment}
    (h : EffectsLaid inAsync base next es f) : StoresFollow base f.code := by
  induction h with
  | nil => exact storesFollow_nil _
  | plain _ _ ih => exact storesFollow_append ih (storesFollow_one rfl)
  | suspend _ _ _ _ hi ih =>
    refine storesFollow_append ih fun i hmem hs => ?_
    simp only [List.mem_cons, List.not_mem_nil, or_false] at hmem
    rcases hmem with rfl | rfl
    · simp [Instr.isSuspend] at hs
    · exact ⟨0, _, _, (suspendInstr_targets hi).1, rfl⟩
  | seq _ _ _ ih ih' => exact storesFollow_append ih ih'

section Pieces

variable {inAsync : Bool} {base : Nat}

theorem ConditionLaid.storesFollow {onTrue onFalse : Nat} {e : Expr} {f : Fragment}
    (h : ConditionLaid inAsync base onTrue onFalse e f) : StoresFollow base f.code := by
  cases h with
  | plain _ => exact storesFollow_one rfl
  | seq _ _ hfirst => exact storesFollow_cons rfl hfirst.storesFollow

theorem TestLaid.storesFollow {onTrue onFalse : Nat} {e : Option Expr} {f : Fragment}
    (h : TestLaid inAsync base onTrue onFalse e f) : StoresFollow base f.code := by
  cases h with
  | none => exact storesFollow_nil _
  | some h => exact h.storesFollow

theorem UpdateLaid.storesFollow {next : Nat} {e : Option Expr} {f : Fragment}
    (h : UpdateLaid inAsync base next e f) : StoresFollow base f.code := by
  cases h with
  | none => exact storesFollow_nil _
  | some h => exact h.storesFollow

theorem InitLaid.storesFollow {next : Nat} {init : ForInit} {f : Fragment}
    (h : InitLaid inAsync base next init f) : StoresFollow base f.code := by
  cases h with
  | absent => exact storesFollow_nil _
  | expr h => exact h.storesFollow
  | declare _ => exact storesFollow_one rfl

end Pieces

theorem buildTests_isSuspend (subject : String) (base otherwise : Nat) (cases : List (Case × Nat)) :
    ∀ i ∈ (buildTests subject base otherwise cases).code, i.isSuspend = false := by
  induction cases with
  | nil => simp [buildTests, Fragment.one, Instr.isSuspend]
  | cons c cases ih =>
    obtain ⟨c, entry⟩ := c
    simp only [buildTests]
    split
    · exact ih
    · intro i hi
      simp only [Fragment.close, List.mem_append, List.mem_singleton] at hi
      rcases hi with hi | rfl
      · exact ih i hi
      · rfl

theorem storesFollow_plain {base : Nat} {code : List Instr} (h : ∀ i ∈ code, i.isSuspend = false) :
    StoresFollow base code := by
  intro i hi hs
  simp [h i hi] at hs

theorem storesFollow_step {base : Nat} {u : Fragment} (ownScope : Bool)
    (h : StoresFollow base u.code) : StoresFollow base (u.step ownScope base).code := by
  rw [Fragment.step]
  split
  · exact storesFollow_append h (storesFollow_one rfl)
  · exact h

theorem storesFollow_inScope {base next : Nat} {functions : List FunctionDecl} {f : Fragment}
    (h : StoresFollow (base + 1) f.code) :
    StoresFollow base (f.inScope base next functions).code :=
  storesFollow_cons rfl (storesFollow_append h (storesFollow_one rfl))

theorem Laid.storesFollow {around : Surroundings} {base next : Nat} {part : Part} {f : Fragment}
    (h : Laid around base next part f) : StoresFollow base f.code := by
  induction h with
  | @leaf _ _ _ _ s _ _ => exact storesFollow_one (by cases s <;> rfl)
  | labeled _ _ ih | blockStmt _ _ ih | forPlain _ _ _ ih | forIn _ _ ih | forOf _ _ ih
  | alternative _ ih => exact ih
  | enclosed _ _ _ _ ih =>
    exact storesFollow_cons rfl (storesFollow_append ih (storesFollow_one rfl))
  | expr _ he => exact he.storesFollow
  | ifElse _ _ _ ht ihn ihy =>
    simp only [List.append_assoc]
    exact storesFollow_append ihn (storesFollow_append ihy ht.storesFollow)
  | whileDo _ _ ht ih | doWhile _ _ ht ih =>
    simp only [Fragment.testLoop, List.cons_append, List.append_assoc]
    exact storesFollow_cons rfl (storesFollow_cons rfl
      (storesFollow_append ih (storesFollow_append ht.storesFollow (storesFollow_one rfl))))
  | forScoped _ _ _ ih | block _ ih => exact storesFollow_inScope ih
  | headLoop hu hc _ ht hi ih =>
    have hstep := hc ▸ storesFollow_step _ hu.storesFollow
    simp only [Fragment.headLoop, List.cons_append, List.append_assoc]
    exact storesFollow_cons rfl (storesFollow_cons rfl (storesFollow_append hstep
      (storesFollow_append ih (storesFollow_append ht.storesFollow
        (storesFollow_cons rfl hi.storesFollow)))))
  | iteration _ ih =>
    simp only [Fragment.iteration, List.cons_append]
    exact storesFollow_cons rfl (storesFollow_cons rfl (storesFollow_cons rfl
      (storesFollow_cons rfl (storesFollow_append ih
        (storesFollow_cons rfl (storesFollow_cons rfl (storesFollow_one rfl)))))))
  | tryCatch _ _ _ _ ihf ihh ihb =>
    simp only [Fragment.protect, List.cons_append, List.append_assoc]
    exact storesFollow_append ihf (storesFollow_append ihh
      (storesFollow_cons rfl (storesFollow_append ihb (storesFollow_one rfl))))
  | switch _ _ ih =>
    simp only [Fragment.switch, List.cons_append, List.append_assoc]
    exact storesFollow_cons rfl (storesFollow_cons rfl (storesFollow_append ih
      (storesFollow_append (storesFollow_plain (buildTests_isSuspend _ _ _ _))
        (storesFollow_cons rfl (storesFollow_cons rfl (storesFollow_one rfl))))))
  | noAlternative | noFinalizer | noHandler | nil | noCase => exact storesFollow_nil _
  | finalizer _ ih => exact storesFollow_cons rfl ih
  | handler _ ih =>
    exact storesFollow_cons rfl (storesFollow_cons rfl
      (storesFollow_append ih (storesFollow_one rfl)))
  | cons _ _ ih ih' | case _ _ ih ih' => exact storesFollow_append ih ih'

theorem checkInstr_ok {code : List Instr} {position : Nat} {i : Instr}
    (ht : ∀ t ∈ i.targets, t < code.length)
    (hs : i.isSuspend = true → ∃ k slot past, i.targets = [k] ∧ code[k]? = some (.store slot past)) :
    Plan.checkInstr code position i = .ok () := by
  have hnone : i.targets.find? (code.length ≤ ·) = none := by
    rw [List.find?_eq_none]
    intro t h
    have := ht t h
    simp
    omega
  rw [Plan.checkInstr, hnone]
  cases h : i.isSuspend with
  | false => rfl
  | true =>
    obtain ⟨k, slot, past, htargets, hk⟩ := hs h
    simp only [htargets, List.head?_cons, Option.bind_some, hk]
    rfl

theorem checkFrom_ok {code rest : List Instr} {position : Nat}
    (ht : TargetsBelow code.length rest)
    (hs : ∀ i ∈ rest, i.isSuspend = true →
      ∃ k slot past, i.targets = [k] ∧ code[k]? = some (.store slot past)) :
    Plan.checkFrom code position rest = .ok () := by
  induction rest generalizing position with
  | nil => rfl
  | cons i rest ih =>
    rw [Plan.checkFrom, checkInstr_ok (ht i (by simp)) (hs i (by simp))]
    exact ih (fun j hj => ht j (by simp [hj])) fun j hj => hs j (by simp [hj])

structure Plan.Closed (p : Plan) : Prop where
  entry_lt : p.entry < p.length
  targets_lt : TargetsBelow p.length p.code
  stores : ∀ i ∈ p.code, i.isSuspend = true →
    ∃ next slot past, i.targets = [next] ∧ p.get? next = some (.store slot past)

section Check

variable {code : List Instr} {i : Instr}

theorem suspend_targets (h : i.isSuspend = true) : ∃ next, i.targets = [next] := by
  cases i <;> first | exact ⟨_, rfl⟩ | cases h

theorem isStore_eq_true (h : i.isStore = true) : ∃ slot past, i = .store slot past := by
  cases i <;> first | exact ⟨_, _, rfl⟩ | cases h

theorem checkInstr_ok_iff {position : Nat} : Plan.checkInstr code position i = .ok () ↔
    (∀ t ∈ i.targets, t < code.length) ∧ (i.isSuspend = true →
      ∃ next slot past, i.targets = [next] ∧ code[next]? = some (.store slot past)) := by
  refine ⟨fun h => ?_, fun h => checkInstr_ok h.1 h.2⟩
  rw [Plan.checkInstr] at h
  cases hpast : i.targets.find? (code.length ≤ ·) with
  | some t =>
    rw [hpast] at h
    cases h
  | none =>
    rw [hpast] at h
    refine ⟨fun t ht => ?_, fun hs => ?_⟩
    · simpa using List.find?_eq_none.1 hpast t ht
    · obtain ⟨next, htargets⟩ := suspend_targets hs
      dsimp only at h
      rw [htargets, hs] at h
      split at h
      · cases h
      · rename_i hstore
        have hstore : (code[next]?).any Instr.isStore = true := by simpa using hstore
        cases hnext : code[next]? with
        | none =>
          rw [hnext] at hstore
          cases hstore
        | some store =>
          rw [hnext] at hstore
          obtain ⟨slot, past, rfl⟩ := isStore_eq_true hstore
          exact ⟨next, slot, past, htargets, hnext⟩

theorem checkFrom_ok_iff {position : Nat} {rest : List Instr} :
    Plan.checkFrom code position rest = .ok () ↔ TargetsBelow code.length rest ∧
      ∀ i ∈ rest, i.isSuspend = true →
        ∃ next slot past, i.targets = [next] ∧ code[next]? = some (.store slot past) := by
  refine ⟨fun h => ?_, fun h => checkFrom_ok h.1 h.2⟩
  induction rest generalizing position with
  | nil => simp
  | cons i rest ih =>
    rw [Plan.checkFrom] at h
    cases hi : Plan.checkInstr code position i with
    | error r =>
      rw [hi] at h
      cases h
    | ok =>
      rw [hi] at h
      obtain ⟨ht, hs⟩ := checkInstr_ok_iff.1 hi
      obtain ⟨hts, hss⟩ := ih h
      exact ⟨(targetsBelow_cons ..).2 ⟨ht, hts⟩, List.forall_mem_cons.2 ⟨hs, hss⟩⟩

theorem validate_iff_closed {plan : Plan} : plan.validate = .ok () ↔ plan.Closed := by
  rw [Plan.validate]
  by_cases hentry : plan.length ≤ plan.entry
  · rw [if_pos hentry]
    exact ⟨nofun, fun h => absurd h.entry_lt (Nat.not_lt.2 hentry)⟩
  · rw [if_neg hentry]
    have h := @checkFrom_ok_iff plan.code 0 plan.code
    exact ⟨fun hok => ⟨Nat.not_le.1 hentry, (h.1 hok).1, (h.1 hok).2⟩,
      fun hc => h.2 ⟨hc.targets_lt, hc.stores⟩⟩

end Check

/-- The plan of a body passes the check: the body stands after the final `return`, where it goes
on. -/
theorem validate_laid {around : Surroundings} {ss : List Stmt} {f : Fragment} (slots : List String)
    (h : Laid around 1 0 (.stmts ss) f) :
    (Plan.mk (.ret none :: f.code) f.entry slots).validate = .ok () := by
  have hb := (h.bounded (by omega)).1 (f.size + 1) (by omega)
  have hs : StoresFollow 0 (.ret none :: f.code) := storesFollow_cons rfl h.storesFollow
  have hlen : ((Instr.ret none :: f.code).length ≤ f.entry) = False := by
    simp
    omega
  simp only [Plan.validate, Plan.length, hlen, if_false]
  refine checkFrom_ok ?_ fun i hi hsus => ?_
  · simpa using hb.2
  · obtain ⟨k, slot, past, ht, hk⟩ := hs i hi hsus
    exact ⟨k, slot, past, by simpa using ht, hk⟩

end Resumable
