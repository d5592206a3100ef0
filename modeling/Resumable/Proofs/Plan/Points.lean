import Resumable.Proofs.Lowering.Idempotence
import Resumable.Proofs.Lowering.Points
import Resumable.Proofs.Plan.Completeness

/-!
No suspend point is lost on the way from a body to its plan. The code of a part has one suspend
instruction for each suspend expression of the part, of the same kind, and one asynchronous step for
each `for await` loop. Main statements: `buildPlan_keeps_points`, `buildPlan_awaitsIn`.
-/

set_option autoImplicit false

namespace Resumable

namespace Instr

def suspendKind? : Instr → Option SuspendKind
  | .yield _ _ => some .yield
  | .yieldStar _ _ => some .delegate
  | .await _ _ => some .await
  | _ => none

def isAsyncMove : Instr → Bool
  | .moveNext _ _ _ _ isAsync => isAsync
  | _ => false

end Instr

def countSuspends (k : SuspendKind) (code : List Instr) : Nat :=
  code.countP (·.suspendKind? = some k)

def countMoves (code : List Instr) : Nat := code.countP Instr.isAsyncMove

@[simp] theorem countSuspends_nil (k : SuspendKind) : countSuspends k [] = 0 := rfl

@[simp] theorem countSuspends_cons (k : SuspendKind) (i : Instr) (code : List Instr) :
    countSuspends k (i :: code) =
      countSuspends k code + if i.suspendKind? = some k then 1 else 0 := by
  simp [countSuspends, List.countP_cons]

@[simp] theorem countSuspends_append (k : SuspendKind) (c d : List Instr) :
    countSuspends k (c ++ d) = countSuspends k c + countSuspends k d := List.countP_append

@[simp] theorem countMoves_nil : countMoves [] = 0 := rfl

@[simp] theorem countMoves_cons (i : Instr) (code : List Instr) :
    countMoves (i :: code) = countMoves code + i.isAsyncMove.toNat := by
  cases h : i.isAsyncMove <;> simp [countMoves, h]

@[simp] theorem countMoves_append (c d : List Instr) :
    countMoves (c ++ d) = countMoves c + countMoves d := List.countP_append

/-- Whether code has a suspend instruction for each of the forms, and so many asynchronous steps. -/
structure Tallies (code : List Instr) (forms : List SuspendForm) (loops : Nat) : Prop where
  suspends : ∀ k, countSuspends k code = countKind k forms
  moves : countMoves code = loops

namespace Tallies

variable {c d : List Instr} {fs gs : List SuspendForm} {m n : Nat} {i : Instr}

theorem nil : Tallies [] [] 0 := ⟨fun _ => rfl, rfl⟩

theorem append (hc : Tallies c fs m) (hd : Tallies d gs n) : Tallies (c ++ d) (fs ++ gs) (m + n) :=
  ⟨fun k => by simp [hc.suspends k, hd.suspends k], by simp [hc.moves, hd.moves]⟩

theorem append_rev (hc : Tallies c fs m) (hd : Tallies d gs n) :
    Tallies (c ++ d) (gs ++ fs) (n + m) :=
  ⟨fun k => by simp [hc.suspends k, hd.suspends k, Nat.add_comm],
    by simp [hc.moves, hd.moves, Nat.add_comm]⟩

theorem suspend {form : SuspendForm} (hs : i.suspendKind? = some form.kind)
    (hm : i.isAsyncMove = false) : Tallies [i] [form] 0 :=
  ⟨fun k => by simp [hs, countKind, List.countP_cons], by simp [hm]⟩

theorem cons (hs : i.suspendKind? = none) (hm : i.isAsyncMove = false) (hc : Tallies c fs m) :
    Tallies (i :: c) fs m :=
  ⟨fun k => by simp [hs, hc.suspends k], by simp [hm, hc.moves]⟩

theorem concat (hs : i.suspendKind? = none) (hm : i.isAsyncMove = false) (hc : Tallies c fs m) :
    Tallies (c ++ [i]) fs m := by
  simpa using hc.append (cons hs hm nil)

end Tallies

section Pieces

variable {inAsync : Bool} {base : Nat}

theorem suspendInstr_kind {e : Expr} {store : Nat} {i : Instr}
    (h : e.suspendInstr? store = some i) :
    i.suspendKind? = some e.form.kind ∧ i.isAsyncMove = false := by
  rw [Expr.suspendInstr?.eq_def] at h
  split at h
  all_goals
    cases h
    try exact ⟨rfl, rfl⟩

theorem forms_effectParts {e d : Expr} {slot : Option String} (h : e.effectParts = (slot, d)) :
    e.forms inAsync = d.forms inAsync := by
  rw [Expr.effectParts.eq_def] at h
  split at h
  · cases h
    simp
  · cases h
    rfl

theorem EffectsLaid.tallies {next : Nat} {es : List Expr} {f : Fragment}
    (h : EffectsLaid inAsync base next es f) : Tallies f.code (listForms inAsync es) 0 := by
  induction h with
  | nil => exact .nil
  | plain _ he ih =>
    rw [listForms_cons, (forms_eq_nil_iff inAsync _).2 he]
    exact ih.concat rfl rfl
  | suspend _ _ hp hd hi ih =>
    obtain ⟨hk, hm⟩ := suspendInstr_kind hi
    rw [listForms_cons, forms_effectParts hp, forms_of_isSimpleSuspend hd]
    exact ih.append_rev (.cons rfl rfl (.suspend hk hm))
  | seq _ _ _ ih ih' =>
    rw [listForms_cons, forms_seq]
    exact ih.append_rev ih'

theorem ConditionLaid.tallies {onTrue onFalse : Nat} {e : Expr} {f : Fragment}
    (h : ConditionLaid inAsync base onTrue onFalse e f) (he : e.isLoweredCondition inAsync = true) :
    Tallies f.code (e.forms inAsync) 0 := by
  cases h with
  | plain hs =>
    rw [(forms_eq_nil_iff inAsync e).2 hs]
    exact .cons rfl rfl .nil
  | @seq items last first hs hlast hfirst =>
    have hl := (sequenceIsLowered_parts inAsync he).2 _ hlast
    have hitems : items = items.dropLast ++ [last] := by
      obtain ⟨hne, rfl⟩ := List.getLast?_eq_some_iff.1 hlast
      simp
    have hf : (Expr.seq items).forms inAsync = listForms inAsync items.dropLast := by
      rw [forms_seq, hitems, listForms_append, listForms_cons, (forms_eq_nil_iff inAsync last).2 hl]
      simp
    rw [hf]
    exact hfirst.tallies.cons rfl rfl

theorem TestLaid.tallies {onTrue onFalse : Nat} {e : Option Expr} {f : Fragment}
    (h : TestLaid inAsync base onTrue onFalse e f)
    (he : e.all (·.isLoweredCondition inAsync) = true) :
    Tallies f.code (optionForms inAsync e) 0 := by
  cases h with
  | none => exact .nil
  | some h => exact h.tallies he

theorem UpdateLaid.tallies {next : Nat} {e : Option Expr} {f : Fragment}
    (h : UpdateLaid inAsync base next e f) : Tallies f.code (optionForms inAsync e) 0 := by
  cases h with
  | none => exact .nil
  | some h => simpa [optionForms] using h.tallies

theorem InitLaid.tallies {next : Nat} {init : ForInit} {f : Fragment}
    (h : InitLaid inAsync base next init f) : Tallies f.code (init.forms inAsync) 0 := by
  cases h with
  | absent => exact .nil
  | expr h => simpa [ForInit.forms] using h.tallies
  | declare hs =>
    rw [forInit_forms inAsync (.declare _ _) hs]
    exact .cons rfl rfl .nil

end Pieces

theorem buildTests_tallies (subject : String) (base otherwise : Nat) (cases : List (Case × Nat)) :
    Tallies (buildTests subject base otherwise cases).code [] 0 := by
  induction cases with
  | nil => exact .cons rfl rfl .nil
  | cons c cases ih =>
    obtain ⟨c, entry⟩ := c
    simp only [buildTests]
    split
    · exact ih
    · exact ih.concat rfl rfl

theorem step_tallies {u : Fragment} {forms : List SuspendForm} {n : Nat} (ownScope : Bool)
    (base : Nat) (h : Tallies u.code forms n) : Tallies (u.step ownScope base).code forms n := by
  rw [Fragment.step]
  split
  · exact h.concat rfl rfl
  · exact h

/-- The suspend expressions of what a part is made for. -/
@[simp] def Part.forms (inAsync : Bool) : Part → List SuspendForm
  | .stmt _ s => s.forms inAsync
  | .stmts ss | .block ss => bodyForms inAsync ss
  | .alternative none | .handler none _ | .finalizer none _ => []
  | .alternative (some no) => no.forms inAsync
  | .headLoop _ _ init test update body => init.forms inAsync ++ optionForms inAsync test ++
      optionForms inAsync update ++ body.forms inAsync
  | .iteration _ _ subject body _ _ => subject.forms inAsync ++ body.forms inAsync
  | .handler (some (.mk _ body)) _ | .finalizer (some body) _ => bodyForms inAsync body
  | .cases cs _ => caseForms inAsync cs

@[simp] def Part.asyncLoops : Part → Nat
  | .stmt _ s => s.asyncLoops
  | .stmts ss | .block ss => bodyAsyncLoops ss
  | .alternative none | .handler none _ | .finalizer none _ => 0
  | .alternative (some no) => no.asyncLoops
  | .headLoop _ _ _ _ _ body => body.asyncLoops
  | .iteration _ _ _ body isAsync _ => isAsync.toNat + body.asyncLoops
  | .handler (some (.mk _ body)) _ | .finalizer (some body) _ => bodyAsyncLoops body
  | .cases cs _ => caseAsyncLoops cs

theorem leaf_tallies (s : Stmt) (next : Nat) : Tallies [s.leafInstr next] [] 0 := by
  cases s <;> exact .cons rfl rfl .nil

theorem tryCatch_points (inAsync : Bool) (block : List Stmt) (handler : Option Catch)
    (finalizer : Option (List Stmt)) (onThrow onExit : Option Nat) :
    (Stmt.tryCatch block handler finalizer).forms inAsync = bodyForms inAsync block ++
        (Part.handler handler onThrow).forms inAsync ++
        (Part.finalizer finalizer onExit).forms inAsync ∧
      (Stmt.tryCatch block handler finalizer).asyncLoops = bodyAsyncLoops block +
        (Part.handler handler onThrow).asyncLoops + (Part.finalizer finalizer onExit).asyncLoops := by
  match handler, finalizer with
  | none, none | none, some _ | some (.mk _ _), none | some (.mk _ _), some _ =>
    simp [Stmt.forms, Stmt.asyncLoops]

/-- In an asynchronous body, or in one without `for await` loops, the code of a part has as many
suspend instructions and asynchronous steps as the part has suspend points. -/
theorem Laid.tallies {around : Surroundings} {base next : Nat} {part : Part} {f : Fragment}
    (h : Laid around base next part f) (hl : part.Lowered around.inAsync)
    (ha : around.inAsync = true ∨ part.asyncLoops = 0) :
    Tallies f.code (part.forms around.inAsync) part.asyncLoops := by
  induction h with
  | @leaf around _ next _ s hs _ =>
    have hloops : s.asyncLoops = 0 := by
      rcases ha with ha | ha
      · exact asyncLoops_of_plain s (ha ▸ hs)
      · exact ha
    have hforms := stmtForms_of_plain around.inAsync s hs
    simpa [hloops, hforms, Fragment.one] using leaf_tallies s next
  | labeled _ _ ih | blockStmt _ _ ih | alternative _ ih => exact ih hl ha
  | enclosed _ _ _ _ ih => exact ((ih hl ha).cons rfl rfl).concat rfl rfl
  | expr _ he => simpa [Stmt.forms, Stmt.asyncLoops] using he.tallies
  | @ifElse around _ _ test yes no _ _ _ _ _ _ ht ihn ihy =>
    cases no with
    | none =>
      simp only [Part.Lowered, Stmt.isLowered, Bool.and_eq_true, Bool.not_eq_true'] at hl
      have hn := ihn trivial (.inr rfl)
      have hy := ihy hl.2 ha
      have ht := ht.tallies (isLoweredCondition_of_plain _ test hl.1)
      simpa [Stmt.forms, Stmt.asyncLoops] using
        (hn.append_rev hy).append_rev ht
    | some no =>
      simp only [Part.Lowered, Stmt.isLowered, Bool.and_eq_true, Bool.not_eq_true'] at hl
      simp only [Part.asyncLoops, Stmt.asyncLoops, Nat.add_eq_zero_iff] at ha
      have hn := ihn hl.2 (ha.imp_right (·.2))
      have hy := ihy hl.1.2 (ha.imp_right (·.1))
      have ht := ht.tallies (isLoweredCondition_of_plain _ test hl.1.1)
      simpa [Stmt.forms, Stmt.asyncLoops] using
        (hn.append_rev hy).append_rev ht
  | whileDo _ _ ht ih =>
    simp only [Part.Lowered, Stmt.isLowered, Bool.and_eq_true] at hl
    have h := (ih hl.2 ha).append_rev (ht.tallies hl.1)
    simpa [Stmt.forms, Stmt.asyncLoops, Fragment.testLoop] using
      ((h.concat rfl rfl).cons rfl rfl).cons rfl rfl
  | doWhile _ _ ht ih =>
    simp only [Part.Lowered, Stmt.isLowered, Bool.and_eq_true] at hl
    have h := (ih hl.2 ha).append (ht.tallies hl.1)
    simpa [Stmt.forms, Stmt.asyncLoops, Fragment.testLoop] using
      ((h.concat rfl rfl).cons rfl rfl).cons rfl rfl
  | forPlain _ _ _ ih =>
    simp only [Part.Lowered, Stmt.isLowered, Bool.and_eq_true, Bool.not_eq_true'] at hl
    exact ih ⟨hl.1.1.1, hl.1.1.2, hl.1.2, hl.2⟩ ha
  | forScoped _ _ _ ih =>
    simp only [Part.Lowered, Stmt.isLowered, Bool.and_eq_true, Bool.not_eq_true'] at hl
    exact ((ih ⟨hl.1.1.1, hl.1.1.2, hl.1.2, hl.2⟩ ha).cons rfl rfl).concat rfl rfl
  | headLoop hu hc _ ht hi ih =>
    obtain ⟨-, hlt, -, hlb⟩ := hl
    have hc := hc ▸ step_tallies _ _ hu.tallies
    have hb := ih hlb ha
    have ht := ht.tallies hlt
    have hi := hi.tallies
    refine ⟨fun k => ?_, ?_⟩
    · have hk := hb.suspends k
      simp only [Surroundings.enter_inAsync, Part.forms] at hk
      simp [Fragment.headLoop, Instr.suspendKind?, hc.suspends k, hk, ht.suspends k,
        hi.suspends k]
      omega
    · have hm := hb.moves
      simp only [Part.asyncLoops] at hm
      simp [Fragment.headLoop, Instr.isAsyncMove, hc.moves, hm, ht.moves, hi.moves]
  | forIn _ _ ih =>
    simp only [Part.Lowered, Stmt.isLowered, Bool.and_eq_true, Bool.not_eq_true'] at hl
    have h := ih ⟨hl.1.1, hl.1.2, hl.2⟩ (ha.imp_right fun h => by
      simpa [Stmt.asyncLoops] using h)
    simpa [Stmt.forms, Stmt.asyncLoops] using h
  | forOf _ _ ih =>
    simp only [Part.Lowered, Stmt.isLowered, Bool.and_eq_true, Bool.not_eq_true'] at hl
    exact ih ⟨hl.1.1, hl.1.2, hl.2⟩ ha
  | @iteration around _ _ _ _ subject _ _ _ _ _ ih =>
    obtain ⟨-, he, hlb⟩ := hl
    have hb := ih hlb (ha.imp_right fun h => (Nat.add_eq_zero_iff.1 h).2)
    have he := (forms_eq_nil_iff around.inAsync subject).2 he
    refine ⟨fun k => ?_, ?_⟩
    · have hk := hb.suspends k
      simp only [Surroundings.enter_inAsync, Part.forms] at hk
      simp [Fragment.iteration, Instr.suspendKind?, he, hk]
    · have hm := hb.moves
      simp only [Part.asyncLoops] at hm
      simp [Fragment.iteration, Instr.isAsyncMove, hm, Nat.add_comm]
  | @tryCatch around _ next block handler finalizer onThrow onExit _ _ b _ _ _ _ ihf ihh ihb =>
    obtain ⟨hb, hh, hf⟩ := tryCatch_isLowered _ _ _ _ onThrow onExit hl
    obtain ⟨hforms, hloops⟩ :=
      tryCatch_points around.inAsync block handler finalizer onThrow onExit
    simp only [Part.asyncLoops, hloops, Nat.add_eq_zero_iff] at ha
    have hf := ihf hf (ha.imp_right (·.2))
    have hh := ihh hh (ha.imp_right (·.1.2))
    have hb := ihb hb (ha.imp_right (·.1.1))
    simp only [Part.forms, Part.asyncLoops, hforms, hloops]
    have hb := (hb.concat (i := .enterTry onThrow onExit b.entry) rfl rfl).cons
      (i := .exitTry next false) rfl rfl
    have h := (hf.append_rev hh).append_rev hb
    simpa [Fragment.protect, Nat.add_assoc] using h
  | @switch around base _ _ subject cases entries name c _ _ ih =>
    simp only [Part.Lowered, Stmt.isLowered, Bool.and_eq_true, Bool.not_eq_true'] at hl
    have hc := ih hl.2 ha
    have he := (forms_eq_nil_iff around.inAsync subject).2 hl.1
    have ht := buildTests_tallies name (base + 2 + c.size)
      (defaultEntry (base + 1) (cases.zip entries)) (cases.zip entries)
    refine ⟨fun k => ?_, ?_⟩
    · have hk := hc.suspends k
      simp only [Surroundings.enter_inAsync, Part.forms] at hk
      simp [Fragment.switch, Stmt.forms, Instr.suspendKind?, he, hk, ht.suspends k]
    · have hm := hc.moves
      simp only [Part.asyncLoops] at hm
      simp [Fragment.switch, Stmt.asyncLoops, Instr.isAsyncMove, hm, ht.moves]
  | block _ ih => exact ((ih hl ha).cons rfl rfl).concat rfl rfl
  | noAlternative | noFinalizer | noHandler | nil | noCase => exact .nil
  | finalizer _ ih => exact (ih hl ha).cons rfl rfl
  | handler _ ih => exact (((ih hl.2 ha).cons rfl rfl).cons rfl rfl).concat rfl rfl
  | cons _ _ ih ih' =>
    simp only [Part.Lowered, areLowered, Bool.and_eq_true] at hl
    simp only [Part.asyncLoops, bodyAsyncLoops, Nat.add_eq_zero_iff] at ha
    exact (ih hl.2 (ha.imp_right (·.2))).append_rev (ih' hl.1 (ha.imp_right (·.1)))
  | @case around _ _ test _ _ _ _ _ _ _ ih ih' =>
    simp only [Part.Lowered, casesAreLowered, Bool.and_eq_true, Bool.not_eq_true'] at hl
    simp only [Part.asyncLoops, caseAsyncLoops, Nat.add_eq_zero_iff] at ha
    have ht := (optionForms_eq_nil_iff around.inAsync test).2 hl.1.1
    have h := (ih hl.2 (ha.imp_right (·.2))).append_rev (ih' hl.1.2 (ha.imp_right (·.1)))
    simpa [caseForms, caseAsyncLoops, ht] using h

theorem lowerBody_keeps {inAsync : Bool} {body : List Stmt} {lowered : LoweredBody}
    (h : lowerBody inAsync body = .ok lowered) :
    bodyAsyncLoops lowered.body = bodyAsyncLoops body ∧
      ArePlain inAsync (bodyPatterns body) := by
  rw [lowerBody] at h
  split at h
  · rename_i hr
    cases h
    exact lowerStmts_keeps inAsync body _ _ _ hr
  · cases h

/-- In an asynchronous body, or in one without `for await` loops, no suspend point is lost, doubled
or moved. The lowered body has the suspend expressions of the body in the same order, no pattern of
either suspends, and the plan has an instruction for each suspend point that the census counts. -/
theorem buildPlan_keeps_points {inAsync : Bool} {params : List Pattern} {body : List Stmt}
    {plan : Plan} (h : buildPlan inAsync params body = .ok plan)
    (ha : inAsync = true ∨ bodyAsyncLoops body = 0) :
    (∃ lowered, lowerBody inAsync body = .ok lowered ∧
      bodyForms inAsync lowered.body = bodyForms inAsync body ∧
      ArePlain inAsync (bodyPatterns body) ∧ ArePlain inAsync (bodyPatterns lowered.body)) ∧
    countSuspends .yield plan.code = (Census.ofBody inAsync body).yields ∧
    countSuspends .delegate plan.code = (Census.ofBody inAsync body).delegates ∧
    countSuspends .await plan.code + countMoves plan.code = (Census.ofBody inAsync body).awaits := by
  obtain ⟨lowered, f, hl, hlaid, hcode, -⟩ := buildPlan_laid h
  have hs := lowerBody_sound hl
  obtain ⟨hloops, hplain⟩ := lowerBody_keeps hl
  have ht := (hlaid.tallies hs.lowered (ha.imp_right (hloops.trans ·))).cons
    (i := .ret none) rfl rfl
  rw [← hcode] at ht
  simp only [Part.forms, Part.asyncLoops, hs.forms, hloops] at ht
  -- the census as counts of forms and loops, one kind at a time
  have hp := fun k => body_points inAsync k body
  refine ⟨⟨lowered, hl, hs.forms, hplain, areLowered_arePlain inAsync _ hs.lowered⟩, ?_, ?_, ?_⟩
  · rw [ht.suspends]
    exact (hp .yield).symm
  · rw [ht.suspends]
    exact (hp .delegate).symm
  · rw [ht.suspends, ht.moves]
    exact (hp .await).symm

/-- A `for await` loop over a yielded value, with an await in its body and a delegation after it. -/
theorem buildPlan_keeps_points_async : ∃ plan, buildPlan true []
      [.forOf (.declare .const (.ident "x")) (.yield (some (.ident "xs")))
        (.expr (.call (.ident "f") [.ident "x", .await (.ident "x")])) true,
        .expr (.yieldStar (some (.ident "g")))] = .ok plan ∧
    countSuspends .yield plan.code = 1 ∧ countSuspends .delegate plan.code = 1 ∧
    countSuspends .await plan.code + countMoves plan.code = 2 := by
  refine ⟨?plan, ?built, (buildPlan_keeps_points ?built (.inl rfl)).2⟩
  case built => rfl

def AwaitsIn (inAsync : Bool) (code : List Instr) : Prop :=
  ∀ i ∈ code, i.suspendKind? = some .await → inAsync = true

@[simp] theorem awaitsIn_nil (inAsync : Bool) : AwaitsIn inAsync [] := by simp [AwaitsIn]

@[simp] theorem awaitsIn_cons (inAsync : Bool) (i : Instr) (code : List Instr) :
    AwaitsIn inAsync (i :: code) ↔
      (i.suspendKind? = some .await → inAsync = true) ∧ AwaitsIn inAsync code := by
  simp [AwaitsIn]

@[simp] theorem awaitsIn_append (inAsync : Bool) (c d : List Instr) :
    AwaitsIn inAsync (c ++ d) ↔ AwaitsIn inAsync c ∧ AwaitsIn inAsync d := by
  simp [AwaitsIn, or_imp, forall_and]

section Awaits

variable {inAsync : Bool} {base next : Nat}

theorem suspendInstr_awaitsIn {e : Expr} {store : Nat} {i : Instr}
    (h : e.suspendInstr? store = some i) (he : e.isSimpleSuspend inAsync = true)
    (hi : i.suspendKind? = some .await) : inAsync = true := by
  rw [Expr.suspendInstr?.eq_def] at h
  split at h
  · cases h
    cases hi
  · cases h
    cases hi
  · cases h
    simp only [Expr.isSimpleSuspend, Bool.and_eq_true] at he
    exact he.1
  · cases h

theorem EffectsLaid.awaitsIn {es : List Expr} {f : Fragment}
    (h : EffectsLaid inAsync base next es f) : AwaitsIn inAsync f.code := by
  induction h with
  | nil => exact awaitsIn_nil _
  | plain _ _ ih => simpa [Instr.suspendKind?] using ih
  | suspend _ _ _ hd hi ih => simpa [ih, Instr.suspendKind?] using suspendInstr_awaitsIn hi hd
  | seq _ _ _ ih ih' => simp [ih, ih']

theorem ConditionLaid.awaitsIn {onTrue onFalse : Nat} {e : Expr} {f : Fragment}
    (h : ConditionLaid inAsync base onTrue onFalse e f) : AwaitsIn inAsync f.code := by
  cases h with
  | plain => simp [Fragment.one, Instr.suspendKind?]
  | seq _ _ hfirst => simpa [Instr.suspendKind?] using hfirst.awaitsIn

theorem TestLaid.awaitsIn {onTrue onFalse : Nat} {e : Option Expr} {f : Fragment}
    (h : TestLaid inAsync base onTrue onFalse e f) : AwaitsIn inAsync f.code := by
  cases h with
  | none => exact awaitsIn_nil _
  | some h => exact h.awaitsIn

theorem UpdateLaid.awaitsIn {e : Option Expr} {f : Fragment}
    (h : UpdateLaid inAsync base next e f) : AwaitsIn inAsync f.code := by
  cases h with
  | none => exact awaitsIn_nil _
  | some h => exact h.awaitsIn

theorem InitLaid.awaitsIn {init : ForInit} {f : Fragment}
    (h : InitLaid inAsync base next init f) : AwaitsIn inAsync f.code := by
  cases h with
  | absent => exact awaitsIn_nil _
  | expr h => exact h.awaitsIn
  | declare => simp [Fragment.one, Instr.suspendKind?]

theorem buildTests_awaitsIn (subject : String) (otherwise : Nat) (cases : List (Case × Nat)) :
    AwaitsIn inAsync (buildTests subject base otherwise cases).code := by
  induction cases with
  | nil => simp [buildTests, Fragment.one, Instr.suspendKind?]
  | cons c cases ih =>
    simp only [buildTests]
    split
    · exact ih
    · simpa [Fragment.close, Instr.suspendKind?] using ih

theorem step_awaitsIn {u : Fragment} (ownScope : Bool) (h : AwaitsIn inAsync u.code) :
    AwaitsIn inAsync (u.step ownScope base).code := by
  rw [Fragment.step]
  split
  · simpa [Fragment.close, Instr.suspendKind?] using h
  · exact h

theorem leaf_awaitsIn (s : Stmt) : AwaitsIn inAsync [s.leafInstr next] := by
  cases s <;> simp [Stmt.leafInstr, Instr.suspendKind?]

end Awaits

theorem Laid.awaitsIn {around : Surroundings} {base next : Nat} {part : Part} {f : Fragment}
    (h : Laid around base next part f) : AwaitsIn around.inAsync f.code := by
  induction h with
  | leaf => exact leaf_awaitsIn _
  | labeled _ _ ih | blockStmt _ _ ih | alternative _ ih | forPlain _ _ _ ih | forIn _ _ ih
  | forOf _ _ ih => exact ih
  | enclosed _ _ _ _ ih => simpa [Fragment.enclose, Instr.suspendKind?] using ih
  | expr _ he => exact he.awaitsIn
  | ifElse _ _ _ ht ihn ihy => simp [ihn, ihy, ht.awaitsIn]
  | whileDo _ _ ht ih | doWhile _ _ ht ih =>
    simp only [Surroundings.enter_inAsync] at ih
    simp [Fragment.testLoop, Instr.suspendKind?, ih, ht.awaitsIn]
  | forScoped _ _ _ ih | block _ ih => simpa [Fragment.inScope, Instr.suspendKind?] using ih
  | headLoop hu hc _ ht hi ih =>
    have hc := hc ▸ step_awaitsIn _ hu.awaitsIn
    simp only [Surroundings.enter_inAsync] at ih
    simp [Fragment.headLoop, Instr.suspendKind?, hc, ih, ht.awaitsIn, hi.awaitsIn]
  | iteration _ ih => simpa [Fragment.iteration, Instr.suspendKind?] using ih
  | tryCatch _ _ _ _ ihf ihh ihb =>
    simp [Fragment.protect, Instr.suspendKind?, ihf, ihh, ihb]
  | switch _ _ ih =>
    simp only [Surroundings.enter_inAsync] at ih
    simp [Fragment.switch, Instr.suspendKind?, ih, buildTests_awaitsIn]
  | noAlternative | noFinalizer | noHandler | nil | noCase => exact awaitsIn_nil _
  | finalizer _ ih | handler _ ih => simpa [Instr.suspendKind?] using ih
  | cons _ _ ih ih' | case _ _ ih ih' => simp [ih, ih']

/-- A plan awaits only if it is that of an asynchronous body. -/
theorem buildPlan_awaitsIn {inAsync : Bool} {params : List Pattern} {body : List Stmt} {plan : Plan}
    (h : buildPlan inAsync params body = .ok plan) : AwaitsIn inAsync plan.code := by
  obtain ⟨lowered, f, -, hlaid, hcode, -⟩ := buildPlan_laid h
  simpa [hcode, Instr.suspendKind?] using hlaid.awaitsIn

end Resumable
