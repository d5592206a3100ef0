import Resumable.Proofs.Plan.Constructs

/-!
Emission writes what is built, and a refusal leaves nothing behind. Main statements:
`Stmt.emitUnder_writes`, `emitPlan_eq`, `emit_all_or_nothing`.
-/

set_option autoImplicit false

namespace Resumable

open Emit

@[simp] theorem Emitter.around_inAsync (b : Emitter) : b.around.inAsync = b.inAsync := rfl

theorem Writes.ofSuspends {s : Stmt} {around : Surroundings} {labels : List String}
    (h : ∀ (b : Emitter) (next : Nat), b.around = around → s.hasSuspend b.inAsync = true →
      Agrees Fragment.parts b ((s.build b.around labels b.code.length next).run b.temps.length)
        ((s.emitUnder labels next).runOn b)) :
    Writes around (fun base next => s.build around labels base next)
      (fun next => s.emitUnder labels next) := by
  rintro b base next m rfl rfl rfl
  cases hs : s.hasSuspend b.inAsync with
  | false =>
    dsimp only
    rw [Stmt.build.eq_def, Stmt.emitUnder.eq_def, runOn_get_bind]
    simp only [hs, Emitter.around_inAsync, Bool.not_false, ↓reduceIte]
    exact emitLeaf_agrees s next rfl rfl
  | true => exact h b next rfl hs

/-
Induction over the statement. The surroundings change on the way down, and the position with every part
that has been written, so both are arbitrary in the hypothesis.
-/
mutual

theorem Stmt.emitUnder_writes : (s : Stmt) → (around : Surroundings) → (labels : List String) →
    Writes around (fun base next => s.build around labels base next)
      (fun next => s.emitUnder labels next)
  | .empty, around, labels | .brk _, around, labels | .cont _, around, labels
  | .function _ _, around, labels => .ofSuspends fun b next ha hs => by
    simp [Stmt.hasSuspend] at hs
  | .ret _, around, labels | .throw _, around, labels
  | .declare _ _, around, labels => .ofSuspends fun b next ha hs => by
    rw [Stmt.build.eq_def, Stmt.emitUnder.eq_def, runOn_get_bind]
    simp only [Emitter.around_inAsync, hs, Bool.not_true, Bool.false_eq_true, ↓reduceIte]
    exact .refused
  | .labeled label s, around, labels => .ofSuspends fun b next ha hs => by
    rw [Stmt.build.eq_def, Stmt.emitUnder.eq_def, runOn_get_bind]
    simp only [Emitter.around_inAsync, hs, Bool.not_true, Bool.false_eq_true, ↓reduceIte]
    exact s.emitUnder_writes _ _ b _ next _ rfl rfl rfl
  | .expr e, around, labels => .ofSuspends fun b next ha hs => by
    rw [Stmt.build.eq_def, Stmt.emitUnder.eq_def, runOn_get_bind]
    simp only [Emitter.around_inAsync, hs, Bool.not_true, Bool.false_eq_true, ↓reduceIte]
    refine emitEnclosed_writes (fun inner hi => ?_) b _ next _ rfl rfl rfl
    rintro c base next m rfl hbase hm
    rw [← show c.inAsync = b.inAsync from hi] at hs ⊢
    exact emitEffect_agrees e next c base m hs hbase hm
  | .block body, around, labels => .ofSuspends fun b next ha hs => by
    rw [Stmt.build.eq_def, Stmt.emitUnder.eq_def, runOn_get_bind]
    simp only [Emitter.around_inAsync, hs, Bool.not_true, Bool.false_eq_true, ↓reduceIte]
    exact emitEnclosed_writes (fun inner _ => emitScope_writes _ (emitStmts_writes body inner))
      b _ next _ rfl rfl rfl
  | .ifElse test yes none, around, labels => .ofSuspends fun b next ha hs => by
    rw [Stmt.build.eq_def, Stmt.emitUnder.eq_def, runOn_get_bind]
    simp only [Emitter.around_inAsync, hs, Bool.not_true, Bool.false_eq_true, ↓reduceIte]
    refine emitEnclosed_writes (fun inner hi => ?_) b _ next _ rfl rfl rfl
    rintro c base next m rfl hbase hm
    rw [← show c.inAsync = b.inAsync from hi]
    refine .first (.orUndo (yes.emitUnder_writes c.around [] c _ next _ rfl hbase hm)) fun y j => ?_
    exact .last (emitCondition_agrees test _ _ (by simp [hbase]) (by simp)) fun t => rfl
  | .ifElse test yes (some no), around, labels => .ofSuspends fun b next ha hs => by
    rw [Stmt.build.eq_def, Stmt.emitUnder.eq_def, runOn_get_bind]
    simp only [Emitter.around_inAsync, hs, Bool.not_true, Bool.false_eq_true, ↓reduceIte]
    refine emitEnclosed_writes (fun inner hi => ?_) b _ next _ rfl rfl rfl
    rintro c base next m rfl hbase hm
    rw [← show c.inAsync = b.inAsync from hi]
    refine .first (.orUndo (no.emitUnder_writes c.around [] c _ next _ rfl hbase hm)) fun n i => ?_
    refine .bind ((yes.emitUnder_writes c.around []).orUndo _ _ next _ rfl (by simp [hbase])
      (by simp)) fun y j => ?_
    exact .last (emitCondition_agrees test _ _ (by simp [hbase]; omega) (by simp)) fun t => by
      simp [Fragment.parts]
  | .whileDo test body, around, labels => .ofSuspends fun b next ha hs => by
    rw [Stmt.build.eq_def, Stmt.emitUnder.eq_def, runOn_get_bind]
    simp only [Emitter.around_inAsync, hs, Bool.not_true, Bool.false_eq_true, ↓reduceIte]
    exact emitTestLoop_writes test true (fun base _ => base + 1) (fun _ _ => rfl)
      (body.emitUnder_writes _ []).orUndo b _ next _ rfl rfl rfl
  | .doWhile body test, around, labels => .ofSuspends fun b next ha hs => by
    rw [Stmt.build.eq_def, Stmt.emitUnder.eq_def, runOn_get_bind]
    simp only [Emitter.around_inAsync, hs, Bool.not_true, Bool.false_eq_true, ↓reduceIte]
    exact emitTestLoop_writes test false (fun _ f => f.entry) (fun _ _ => rfl)
      (body.emitUnder_writes _ []).orUndo b _ next _ rfl rfl rfl
  | .forLoop init test update body, around, labels => .ofSuspends fun b next ha hs => by
    rw [Stmt.build.eq_def, Stmt.emitUnder.eq_def, runOn_get_bind]
    simp only [Emitter.around_inAsync, hs, Bool.not_true, Bool.false_eq_true, ↓reduceIte]
    exact emitHeadLoop_writes init test update (body.emitUnder_writes _ []).orUndo
      b _ next _ rfl rfl rfl
  | .forIn target subject body, around, labels => .ofSuspends fun b next ha hs => by
    rw [Stmt.build.eq_def, Stmt.emitUnder.eq_def, runOn_get_bind]
    simp only [Emitter.around_inAsync, hs, Bool.not_true, Bool.false_eq_true, ↓reduceIte]
    exact emitIteration_writes target subject false true (body.emitUnder_writes _ []).orUndo
      b _ next _ rfl rfl rfl
  | .forOf target subject body isAwait, around, labels => .ofSuspends fun b next ha hs => by
    rw [Stmt.build.eq_def, Stmt.emitUnder.eq_def, runOn_get_bind]
    simp only [Emitter.around_inAsync, hs, Bool.not_true, Bool.false_eq_true, ↓reduceIte]
    exact emitIteration_writes target subject isAwait false (body.emitUnder_writes _ []).orUndo
      b _ next _ rfl rfl rfl
  | .tryCatch block none none, around, labels => .ofSuspends fun b next ha hs => by
    rw [Stmt.build.eq_def, Stmt.emitUnder.eq_def, runOn_get_bind]
    simp only [Emitter.around_inAsync, hs, Bool.not_true, Bool.false_eq_true, ↓reduceIte]
    exact emitEnclosed_writes (fun inner _ => emitTry_writes _ (emitStmts_writes block inner))
      b _ next _ rfl rfl rfl
  | .tryCatch block none (some finalizer), around, labels => .ofSuspends fun b next ha hs => by
    rw [Stmt.build.eq_def, Stmt.emitUnder.eq_def, runOn_get_bind]
    simp only [Emitter.around_inAsync, hs, Bool.not_true, Bool.false_eq_true, ↓reduceIte]
    exact emitEnclosed_writes (fun inner _ => emitTry_finally_writes _ _ (emitStmts_writes block inner)
      (emitStmts_writes finalizer inner)) b _ next _ rfl rfl rfl
  | .tryCatch block (some (.mk param handler)) none, around, labels =>
    .ofSuspends fun b next ha hs => by
    rw [Stmt.build.eq_def, Stmt.emitUnder.eq_def, runOn_get_bind]
    simp only [Emitter.around_inAsync, hs, Bool.not_true, Bool.false_eq_true, ↓reduceIte]
    exact emitEnclosed_writes (fun inner _ => emitTry_catch_writes _ _ param
      (emitStmts_writes block inner) (emitStmts_writes handler inner)) b _ next _ rfl rfl rfl
  | .tryCatch block (some (.mk param handler)) (some finalizer), around, labels =>
    .ofSuspends fun b next ha hs => by
    rw [Stmt.build.eq_def, Stmt.emitUnder.eq_def, runOn_get_bind]
    simp only [Emitter.around_inAsync, hs, Bool.not_true, Bool.false_eq_true, ↓reduceIte]
    exact emitEnclosed_writes (fun inner _ => emitTry_catch_finally_writes _ _ _ param
      (emitStmts_writes block inner) (emitStmts_writes handler inner)
      (emitStmts_writes finalizer inner)) b _ next _ rfl rfl rfl
  | .switch subject cases, around, labels => .ofSuspends fun b next ha hs => by
    rw [Stmt.build.eq_def, Stmt.emitUnder.eq_def, runOn_get_bind]
    simp only [Emitter.around_inAsync, hs, Bool.not_true, Bool.false_eq_true, ↓reduceIte]
    refine emitSwitch_writes subject cases
      (fun base exit => buildCases (b.around.enter labels .switch) base exit cases)
      (fun exit => emitCases exit cases) (fun c base exit m hc hbase hm => ?_) b _ next _ rfl rfl rfl
    rw [← hc]
    exact emitCases_agrees cases c base exit m hbase hm

theorem emitStmts_writes : (ss : List Stmt) → (around : Surroundings) →
    Writes around (fun base next => buildStmts around base next ss) (fun next => emitStmts next ss)
  | [], around => by
    rintro b base next m rfl hbase hm
    simp only [buildStmts, emitStmts]
    exact .skip hm
  | s :: ss, around => by
    rintro b base next m rfl hbase hm
    simp only [buildStmts, emitStmts]
    refine .first (emitStmts_writes ss b.around b base next m rfl hbase hm)
      fun rest j => .last (.orUndo ?_) ?_
    · exact s.emitUnder_writes b.around [] _ _ _ _ rfl (by simp [hbase]) (by simp)
    · exact fun first => rfl

theorem emitCases_agrees : (cs : List Case) → (b : Emitter) → (base exit m : Nat) →
    b.code.length = base → b.temps.length = m →
    Agrees id b ((buildCases b.around base exit cs).run m) ((emitCases exit cs).runOn b)
  | [], b, base, exit, m, hbase, hm => by
    simp only [buildCases, emitCases]
    subst hm
    exact .ok ([], []) 0 rfl (by simp)
  | .mk _ body :: cs, b, base, exit, m, hbase, hm => by
    simp only [buildCases, emitCases]
    refine .first (emitCases_agrees cs b base exit m hbase hm) fun rest j => ?_
    obtain ⟨code, entries⟩ := rest
    refine .bind (emitStmts_writes body b.around _ _ _ _ rfl (by simp [hbase]) (by simp)) fun f k => ?_
    exact .done rfl rfl rfl

end

/-- Emission makes the plans that building makes. -/
theorem emitPlan_eq (inAsync : Bool) (params : List Pattern) (body : List Stmt) :
    emitPlan inAsync params body = buildPlan inAsync params body := by
  rw [emitPlan, buildPlan]
  cases params.any (·.hasSuspend inAsync) with
  | true => rfl
  | false =>
    cases lowerBody inAsync body with
    | error r => rfl
    | ok lowered =>
      have h := emitStmts_writes lowered.body ⟨inAsync, []⟩ ((Emitter.new inAsync).grow [.ret none] 0)
        1 0 0 rfl rfl rfl
      cases h with
      | error r c hbuilt hwritten _ =>
        have hw : ExceptT.run (emitBody lowered.body) (Emitter.new inAsync) = (.error r, c) := hwritten
        dsimp only at hbuilt
        simp only [Bool.false_eq_true, ↓reduceIte, bind, Except.bind, hw, hbuilt]
      | ok f n hbuilt hwritten =>
        have hw : ExceptT.run (emitBody lowered.body) (Emitter.new inAsync) =
          (.ok f.entry, ((Emitter.new inAsync).grow [.ret none] 0).grow f.code n) := hwritten
        dsimp only at hbuilt
        simp only [Bool.false_eq_true, ↓reduceIte, bind, Except.bind, hw, hbuilt]
        simp [Emitter.new, Emitter.grow, List.range_eq_range']

/-- Whether nothing has been written or left entered. -/
structure Emitter.Untouched (b c : Emitter) : Prop where
  code : c.code = b.code
  breakables : c.breakables = b.breakables

/-- Whether a statement has been written in full after what was there: its code leads to positions of
the list only, no placeholder is left in it, and it is the code that building makes. -/
structure Emitter.Completes (b c : Emitter) (s : Stmt) (next entry : Nat) (added : List Instr) :
    Prop where
  code : c.code = b.code ++ added
  breakables : c.breakables = b.breakables
  entry_lt : entry < c.code.length
  targets_lt : TargetsBelow c.code.length added
  no_hole : c.code.length ≤ hole → ∀ i ∈ added, hole ∉ i.targets
  built : (s.build b.around [] b.code.length next).run b.temps.length =
    .ok (⟨added, entry⟩, c.temps.length)

/-- Code is written at the end and completely, or not at all. -/
theorem emit_all_or_nothing (b : Emitter) (s : Stmt) (next : Nat) (hnext : next < b.code.length) :
    (∀ r c, (s.emit next).runOn b = (.error r, c) → b.Untouched c) ∧
      ∀ entry c, (s.emit next).runOn b = (.ok entry, c) →
        ∃ added, b.Completes c s next entry added := by
  rw [Stmt.emit, runOn_orUndo]
  cases s.emitUnder_writes b.around [] b _ next _ rfl rfl rfl with
  | error r c hbuilt hwritten hc =>
    rw [hwritten]
    have hrewind := hc.rewind
    constructor
    · rintro r' c' heq
      cases heq
      exact ⟨hrewind.1, hrewind.2⟩
    · rintro entry c' heq
      cases heq
  | ok f n hbuilt hwritten =>
    rw [hwritten]
    constructor
    · rintro r c heq
      cases heq
    · rintro entry c heq
      cases heq
      have hlaid := s.laid b.around [] _ next _ _ f hbuilt
      obtain ⟨hentry, htargets⟩ := (hlaid.bounded hnext).1 _ (Nat.le_refl _)
      have hlength : (b.grow f.code n).code.length = b.code.length + f.size := by simp
      refine ⟨f.code, rfl, rfl, hlength ▸ hentry, hlength ▸ htargets, fun hle i hi ht => ?_, ?_⟩
      · have hlt := htargets i hi _ ht
        simp only [Fragment.parts_fst, hlength] at hle
        omega
      · rw [hbuilt, Fragment.parts_fst, Fragment.parts_snd, Emitter.length_temps_grow]

/-- With a placeholder still open and inside a labeled loop, a loop is written, and a block with a jump
that leads nowhere is taken back. -/
theorem emit_all_or_nothing_nested :
    ∃ b : Emitter, ∃ s t : Stmt, 0 < b.code.length ∧
      (∃ entry c added, (s.emit 0).runOn b = (.ok entry, c) ∧ b.Completes c s 0 entry added) ∧
      ∃ r c, (t.emit 0).runOn b = (.error r, c) ∧ b.Untouched c := by
  let b : Emitter := ⟨[.ret none, .jump hole], false, [⟨["outer"], .loop⟩], []⟩
  let s : Stmt := .whileDo (.ident "go") (.block [.brk (some "outer"), .expr (.yield none)])
  let t : Stmt := .block [.brk (some "other"), .expr (.yield none)]
  have hb : 0 < b.code.length := by decide
  have hs : ∃ entry c, (s.emit 0).runOn b = (.ok entry, c) := ⟨_, _, rfl⟩
  have ht : ∃ r c, (t.emit 0).runOn b = (.error r, c) := ⟨_, _, rfl⟩
  obtain ⟨entry, c, hs⟩ := hs
  obtain ⟨r, d, ht⟩ := ht
  obtain ⟨added, hadded⟩ := (emit_all_or_nothing b s 0 hb).2 entry c hs
  exact ⟨b, s, t, hb, ⟨entry, c, added, hs, hadded⟩, r, d, ht,
    (emit_all_or_nothing b t 0 hb).1 r d ht⟩

end Resumable
