import Resumable.Proofs.Lowering.Lowered
import Resumable.Run
import Resumable.Script.Census

/-!
Suspend points before and after lowering. Besides suspend expressions a body has `for await` loops,
which lowering keeps, and patterns, which may not suspend in a body that can be lowered. Main
statements: `lowerStmts_keeps`, `census_points`.
-/

set_option autoImplicit false

namespace Resumable

def SuspendForm.kind : SuspendForm → SuspendKind
  | .yield _ => .yield
  | .delegate _ => .delegate
  | .await => .await

/-- How many suspend points of a kind a census has found. -/
def Census.points (c : Census) : SuspendKind → Nat
  | .yield => c.yields
  | .delegate => c.delegates
  | .await => c.awaits

mutual

/-- How many `for await` loops the statement has outside of nested functions. -/
def Stmt.asyncLoops : Stmt → Nat
  | .empty | .brk _ | .cont _ | .function _ _ | .expr _ | .throw _ | .ret _ | .declare _ _ => 0
  | .block body => bodyAsyncLoops body
  | .ifElse _ y none => y.asyncLoops
  | .ifElse _ y (some n) => y.asyncLoops + n.asyncLoops
  | .whileDo _ b | .doWhile b _ | .forLoop _ _ _ b | .forIn _ _ b | .labeled _ b => b.asyncLoops
  | .forOf _ _ b isAwait => isAwait.toNat + b.asyncLoops
  | .tryCatch b none none => bodyAsyncLoops b
  | .tryCatch b none (some f) => bodyAsyncLoops b + bodyAsyncLoops f
  | .tryCatch b (some (.mk _ h)) none => bodyAsyncLoops b + bodyAsyncLoops h
  | .tryCatch b (some (.mk _ h)) (some f) =>
    bodyAsyncLoops b + bodyAsyncLoops h + bodyAsyncLoops f
  | .switch _ cases => caseAsyncLoops cases

def bodyAsyncLoops : List Stmt → Nat
  | [] => 0
  | s :: ss => s.asyncLoops + bodyAsyncLoops ss

def caseAsyncLoops : List Case → Nat
  | [] => 0
  | .mk _ body :: cases => bodyAsyncLoops body + caseAsyncLoops cases

end

def Declarator.pattern : Declarator → Pattern
  | .mk p _ => p

def ForInit.patterns : ForInit → List Pattern
  | .declare _ ds => ds.map Declarator.pattern
  | .absent | .expr _ => []

mutual

/-- The patterns of a statement outside of nested functions. -/
def Stmt.patterns : Stmt → List Pattern
  | .empty | .brk _ | .cont _ | .function _ _ | .expr _ | .throw _ | .ret _ => []
  | .declare _ ds => ds.map Declarator.pattern
  | .block body => bodyPatterns body
  | .ifElse _ y none => y.patterns
  | .ifElse _ y (some n) => y.patterns ++ n.patterns
  | .whileDo _ b | .doWhile b _ | .labeled _ b => b.patterns
  | .forLoop i _ _ b => i.patterns ++ b.patterns
  | .forIn p _ b | .forOf p _ b _ => p.pattern :: b.patterns
  | .tryCatch b none none => bodyPatterns b
  | .tryCatch b none (some f) => bodyPatterns b ++ bodyPatterns f
  | .tryCatch b (some (.mk p h)) none => bodyPatterns b ++ p.toList ++ bodyPatterns h
  | .tryCatch b (some (.mk p h)) (some f) =>
    bodyPatterns b ++ p.toList ++ bodyPatterns h ++ bodyPatterns f
  | .switch _ cases => casePatterns cases

def bodyPatterns : List Stmt → List Pattern
  | [] => []
  | s :: ss => s.patterns ++ bodyPatterns ss

def casePatterns : List Case → List Pattern
  | [] => []
  | .mk _ body :: cases => bodyPatterns body ++ casePatterns cases

end

def ArePlain (inAsync : Bool) (ps : List Pattern) : Prop := ∀ p ∈ ps, p.hasSuspend inAsync = false

section Plain

variable {inAsync : Bool}

@[simp] theorem arePlain_nil : ArePlain inAsync [] := by simp [ArePlain]

@[simp] theorem arePlain_cons (p : Pattern) (ps : List Pattern) :
    ArePlain inAsync (p :: ps) ↔ p.hasSuspend inAsync = false ∧ ArePlain inAsync ps := by
  simp [ArePlain]

@[simp] theorem arePlain_append (ps qs : List Pattern) :
    ArePlain inAsync (ps ++ qs) ↔ ArePlain inAsync ps ∧ ArePlain inAsync qs := by
  simp [ArePlain, or_imp, forall_and]

theorem arePlain_toList {p : Option Pattern} (h : p.any (·.hasSuspend inAsync) = false) :
    ArePlain inAsync p.toList := by
  cases p with
  | none => simp
  | some p => simpa using h

theorem declarators_arePlain {ds : List Declarator} (h : ds.any (·.hasSuspend inAsync) = false) :
    ArePlain inAsync (ds.map Declarator.pattern) := by
  intro p hp
  obtain ⟨⟨q, init⟩, hd, rfl⟩ := List.mem_map.1 hp
  have hd := List.any_eq_false.1 h _ hd
  simp only [Declarator.hasSuspend, Bool.or_eq_true, not_or, Bool.not_eq_true] at hd
  exact hd.2

theorem ForInit.arePlain {init : ForInit} (h : init.hasSuspend inAsync = false) :
    ArePlain inAsync init.patterns := by
  cases init with
  | absent | expr => simp [ForInit.patterns]
  | declare kind ds => exact declarators_arePlain h

mutual

theorem isLowered_arePlain (inAsync : Bool) : (s : Stmt) → s.isLowered inAsync = true →
    ArePlain inAsync s.patterns
  | .empty, _ | .brk _, _ | .cont _, _ | .function _ _, _ | .expr _, _ | .throw _, _ | .ret _, _ =>
    arePlain_nil
  | .declare _ ds, h => declarators_arePlain (by simpa [Stmt.isLowered] using h)
  | .block b, h => areLowered_arePlain inAsync b h
  | .ifElse t y none, h => by
    simp only [Stmt.isLowered, Bool.and_eq_true] at h
    exact isLowered_arePlain inAsync y h.2
  | .ifElse t y (some n), h => by
    simp only [Stmt.isLowered, Bool.and_eq_true] at h
    simp [Stmt.patterns, isLowered_arePlain inAsync y h.1.2, isLowered_arePlain inAsync n h.2]
  | .whileDo t b, h | .doWhile b t, h => by
    simp only [Stmt.isLowered, Bool.and_eq_true] at h
    exact isLowered_arePlain inAsync b h.2
  | .forLoop i t u b, h => by
    simp only [Stmt.isLowered, Bool.and_eq_true, Bool.not_eq_true'] at h
    simp [Stmt.patterns, ForInit.arePlain h.1.1.1, isLowered_arePlain inAsync b h.2]
  | .forIn p e b, h | .forOf p e b _, h => by
    simp only [Stmt.isLowered, Bool.and_eq_true, Bool.not_eq_true'] at h
    simp [Stmt.patterns, h.1.1, isLowered_arePlain inAsync b h.2]
  | .tryCatch b none none, h => areLowered_arePlain inAsync b h
  | .tryCatch b none (some f), h => by
    simp only [Stmt.isLowered, Bool.and_eq_true] at h
    simp [Stmt.patterns, areLowered_arePlain inAsync b h.1, areLowered_arePlain inAsync f h.2]
  | .tryCatch b (some (.mk p c)) none, h => by
    simp only [Stmt.isLowered, Bool.and_eq_true, Bool.not_eq_true'] at h
    simp [Stmt.patterns, areLowered_arePlain inAsync b h.1.1, arePlain_toList h.1.2,
      areLowered_arePlain inAsync c h.2]
  | .tryCatch b (some (.mk p c)) (some f), h => by
    simp only [Stmt.isLowered, Bool.and_eq_true, Bool.not_eq_true'] at h
    simp [Stmt.patterns, areLowered_arePlain inAsync b h.1.1.1, arePlain_toList h.1.1.2,
      areLowered_arePlain inAsync c h.1.2, areLowered_arePlain inAsync f h.2]
  | .switch e cases, h => by
    simp only [Stmt.isLowered, Bool.and_eq_true] at h
    exact casesAreLowered_arePlain inAsync cases h.2
  | .labeled _ s, h => isLowered_arePlain inAsync s h

theorem areLowered_arePlain (inAsync : Bool) : (ss : List Stmt) → areLowered inAsync ss = true →
    ArePlain inAsync (bodyPatterns ss)
  | [], _ => arePlain_nil
  | s :: ss, h => by
    simp only [areLowered, Bool.and_eq_true] at h
    simp [bodyPatterns, isLowered_arePlain inAsync s h.1, areLowered_arePlain inAsync ss h.2]

theorem casesAreLowered_arePlain (inAsync : Bool) : (cases : List Case) →
    casesAreLowered inAsync cases = true → ArePlain inAsync (casePatterns cases)
  | [], _ => arePlain_nil
  | .mk t body :: cases, h => by
    simp only [casesAreLowered, Bool.and_eq_true] at h
    simp [casePatterns, areLowered_arePlain inAsync body h.1.2,
      casesAreLowered_arePlain inAsync cases h.2]

end

end Plain

section Loops

theorem bodyAsyncLoops_cons (s : Stmt) (ss : List Stmt) :
    bodyAsyncLoops (s :: ss) = s.asyncLoops + bodyAsyncLoops ss := rfl

theorem bodyAsyncLoops_singleton (s : Stmt) : bodyAsyncLoops [s] = s.asyncLoops := rfl

theorem bodyAsyncLoops_append (ss ts : List Stmt) :
    bodyAsyncLoops (ss ++ ts) = bodyAsyncLoops ss + bodyAsyncLoops ts := by
  induction ss with
  | nil => exact (Nat.zero_add _).symm
  | cons s ss ih => simp [bodyAsyncLoops_cons, ih, Nat.add_assoc]

theorem bodyAsyncLoops_of_isStraight {ss : List Stmt} (h : ∀ s ∈ ss, s.isStraight = true) :
    bodyAsyncLoops ss = 0 := by
  induction ss with
  | nil => rfl
  | cons s ss ih =>
    have hs : s.asyncLoops = 0 := by
      have hs := h s (by simp)
      cases s <;> first | rfl | cases hs
    rw [bodyAsyncLoops_cons, hs, ih fun t ht => h t (by simp [ht])]

theorem bodyAsyncLoops_after (es : List Expr) (s : Stmt) :
    bodyAsyncLoops (effectStmts es ++ [s]) = s.asyncLoops := by
  have h := bodyAsyncLoops_of_isStraight fun t (ht : t ∈ effectStmts es) => effectStmts_isStraight ht
  rw [bodyAsyncLoops_append, h, bodyAsyncLoops_singleton, Nat.zero_add]

@[simp] theorem asyncLoops_ofList (ss : List Stmt) :
    (Stmt.ofList ss).asyncLoops = bodyAsyncLoops ss := by
  rcases ofList_cases ss with ⟨s, rfl, h⟩ | h
  · rw [h, bodyAsyncLoops_singleton]
  · exact congrArg Stmt.asyncLoops h

theorem bodyAsyncLoops_labelLast (label : String) (ss : List Stmt) :
    bodyAsyncLoops (labelLast label ss) = bodyAsyncLoops ss := by
  rcases ss.eq_nil_or_concat with rfl | ⟨init, t, rfl⟩
  · rfl
  · rw [List.concat_eq_append, labelLast_append, bodyAsyncLoops_append, bodyAsyncLoops_append]
    rfl

mutual

/-- In an asynchronous body every `for await` loop suspends. -/
theorem asyncLoops_of_plain : (s : Stmt) → s.hasSuspend true = false → s.asyncLoops = 0
  | .empty, _ | .brk _, _ | .cont _, _ | .function _ _, _ | .expr _, _ | .throw _, _ | .ret _, _
  | .declare _ _, _ => rfl
  | .block b, h => bodyAsyncLoops_of_plain b h
  | .ifElse t y none, h => by
    simp only [Stmt.hasSuspend, Bool.or_eq_false_iff] at h
    exact asyncLoops_of_plain y h.2
  | .ifElse t y (some n), h => by
    simp only [Stmt.hasSuspend, Bool.or_eq_false_iff] at h
    simp [Stmt.asyncLoops, asyncLoops_of_plain y h.1.2, asyncLoops_of_plain n h.2]
  | .whileDo t b, h | .doWhile b t, h | .forLoop _ _ _ b, h => by
    simp only [Stmt.hasSuspend, Bool.or_eq_false_iff] at h
    exact asyncLoops_of_plain b h.2
  | .forIn p e b, h => by
    simp only [Stmt.hasSuspend, Bool.or_eq_false_iff] at h
    exact asyncLoops_of_plain b h.1.2
  | .forOf p e b a, h => by
    simp only [Stmt.hasSuspend, Bool.and_true, Bool.or_eq_false_iff] at h
    simp [Stmt.asyncLoops, h.1.1.1, asyncLoops_of_plain b h.1.2]
  | .tryCatch b none none, h => bodyAsyncLoops_of_plain b h
  | .tryCatch b none (some f), h => by
    simp only [Stmt.hasSuspend, Bool.or_eq_false_iff] at h
    simp [Stmt.asyncLoops, bodyAsyncLoops_of_plain b h.1, bodyAsyncLoops_of_plain f h.2]
  | .tryCatch b (some (.mk p c)) none, h => by
    simp only [Stmt.hasSuspend, Bool.or_eq_false_iff] at h
    simp [Stmt.asyncLoops, bodyAsyncLoops_of_plain b h.1.1, bodyAsyncLoops_of_plain c h.1.2]
  | .tryCatch b (some (.mk p c)) (some f), h => by
    simp only [Stmt.hasSuspend, Bool.or_eq_false_iff] at h
    simp [Stmt.asyncLoops, bodyAsyncLoops_of_plain b h.1.1.1, bodyAsyncLoops_of_plain c h.1.1.2,
      bodyAsyncLoops_of_plain f h.2]
  | .switch e cases, h => by
    simp only [Stmt.hasSuspend, Bool.or_eq_false_iff] at h
    exact caseAsyncLoops_of_plain cases h.2
  | .labeled _ s, h => asyncLoops_of_plain s h

theorem bodyAsyncLoops_of_plain : (ss : List Stmt) → anySuspend true ss = false →
    bodyAsyncLoops ss = 0
  | [], _ => rfl
  | s :: ss, h => by
    simp only [anySuspend, Bool.or_eq_false_iff] at h
    simp [bodyAsyncLoops, asyncLoops_of_plain s h.1, bodyAsyncLoops_of_plain ss h.2]

theorem caseAsyncLoops_of_plain : (cases : List Case) → casesHaveSuspend true cases = false →
    caseAsyncLoops cases = 0
  | [], _ => rfl
  | .mk t body :: cases, h => by
    simp only [casesHaveSuspend, Bool.or_eq_false_iff] at h
    simp [caseAsyncLoops, bodyAsyncLoops_of_plain body h.1.2, caseAsyncLoops_of_plain cases h.2]

end

end Loops

/-- What lowering keeps of a statement beside its suspend expressions. -/
structure Keeps (inAsync : Bool) (s : Stmt) (ss : List Stmt) : Prop where
  loops : bodyAsyncLoops ss = s.asyncLoops
  plain : ArePlain inAsync s.patterns

namespace Keeps

variable {inAsync : Bool} {s : Stmt} {ss : List Stmt}

theorem ofRun {n m : SlotNumber} (hr : (s.lower inAsync).run n = .ok (ss, m))
    (h : s.hasSuspend inAsync = true → Keeps inAsync s ss) : Keeps inAsync s ss := by
  cases hs : s.hasSuspend inAsync with
  | false =>
    rw [Stmt.lower.eq_def] at hr
    simp only [hs, Bool.not_false, ↓reduceIte, run_pure_ok] at hr
    obtain ⟨rfl, -⟩ := hr
    exact ⟨by simp [bodyAsyncLoops], isLowered_arePlain inAsync s (isLowered_of_plain inAsync s hs)⟩
  | true => exact h hs

theorem after {b : List Expr} {t : Stmt} (hl : t.asyncLoops = s.asyncLoops)
    (hp : ArePlain inAsync s.patterns) : Keeps inAsync s (effectStmts b ++ [t]) :=
  ⟨by rw [bodyAsyncLoops_after, hl], hp⟩

theorem one {t : Stmt} (hl : t.asyncLoops = s.asyncLoops) (hp : ArePlain inAsync s.patterns) :
    Keeps inAsync s [t] :=
  after (b := []) hl hp

end Keeps

theorem lowerHead_arePlain {inAsync : Bool} {ds es : List Declarator} {before : List Expr}
    {n m : SlotNumber} (hr : (lowerHead inAsync ds).run n = .ok ((before, es), m)) :
    ArePlain inAsync (ds.map Declarator.pattern) := by
  induction ds generalizing before es n m with
  | nil => simp
  | cons d ds ih =>
    obtain ⟨p, init⟩ := d
    rw [lowerHead, run_guard_ok] at hr
    obtain ⟨hp, hr⟩ := hr
    have hrest : ∃ k b es' k', (lowerHead inAsync ds).run k = .ok ((b, es'), k') := by
      cases init with
      | none =>
        simp only [run_bind_ok] at hr
        obtain ⟨-, k, -, ⟨b, es'⟩, k', hrest, -⟩ := hr
        exact ⟨k, b, es', k', hrest⟩
      | some e =>
        dsimp only at hr
        split at hr
        · simp only [run_bind_ok] at hr
          obtain ⟨-, _, -, -, _, -, -, k, -, ⟨b, es'⟩, k', hrest, -⟩ := hr
          exact ⟨k, b, es', k', hrest⟩
        · split at hr
          · simp only [run_bind_ok] at hr
            obtain ⟨-, _, -, -, k, -, ⟨b, es'⟩, k', hrest, -⟩ := hr
            exact ⟨k, b, es', k', hrest⟩
          · simp only [run_bind_ok] at hr
            obtain ⟨-, k, -, ⟨b, es'⟩, k', hrest, -⟩ := hr
            exact ⟨k, b, es', k', hrest⟩
    obtain ⟨k, b, es', k', hrest⟩ := hrest
    simp [Declarator.pattern, ih hrest, hp]

theorem lowerDeclarators_arePlain {inAsync : Bool} {kind : VarKind} {ds : List Declarator}
    {ss : List Stmt} {n m : SlotNumber}
    (hr : (lowerDeclarators inAsync kind ds).run n = .ok (ss, m)) :
    ArePlain inAsync (ds.map Declarator.pattern) := by
  induction ds generalizing ss n m with
  | nil => simp
  | cons d ds ih =>
    obtain ⟨p, init⟩ := d
    rw [lowerDeclarators, run_guard_ok] at hr
    obtain ⟨hp, hr⟩ := hr
    have hrest : ∃ k rest k', (lowerDeclarators inAsync kind ds).run k = .ok (rest, k') := by
      cases init with
      | none =>
        simp only [run_bind_ok] at hr
        obtain ⟨-, k, -, rest, k', hrest, -⟩ := hr
        exact ⟨k, rest, k', hrest⟩
      | some e =>
        dsimp only at hr
        split at hr
        · simp only [run_bind_ok] at hr
          obtain ⟨-, _, -, -, k, -, rest, k', hrest, -⟩ := hr
          exact ⟨k, rest, k', hrest⟩
        · simp only [run_bind_ok] at hr
          obtain ⟨-, k, -, rest, k', hrest, -⟩ := hr
          exact ⟨k, rest, k', hrest⟩
    obtain ⟨k, rest, k', hrest⟩ := hrest
    simp [Declarator.pattern, ih hrest, hp]

theorem ForInit.lower_arePlain {inAsync : Bool} {init init' : ForInit} {before : List Expr}
    {n m : SlotNumber} (hr : (init.lower inAsync).run n = .ok ((before, init'), m)) :
    ArePlain inAsync init.patterns := by
  cases init with
  | absent | expr => simp [ForInit.patterns]
  | declare kind ds =>
    simp only [ForInit.lower, run_bind_ok] at hr
    obtain ⟨⟨b, es⟩, k, hh, -⟩ := hr
    exact lowerHead_arePlain hh

mutual

theorem Stmt.lower_keeps (inAsync : Bool) : (s : Stmt) → (ss : List Stmt) → (n m : SlotNumber) →
    (s.lower inAsync).run n = .ok (ss, m) → Keeps inAsync s ss
  | .empty, ss, n, m, hr | .brk _, ss, n, m, hr | .cont _, ss, n, m, hr
  | .function _ _, ss, n, m, hr | .ret none, ss, n, m, hr => .ofRun hr fun hs => by
    simp [Stmt.hasSuspend] at hs
  | .expr e, ss, n, m, hr => .ofRun hr fun hs => by
    rw [Stmt.lower] at hr
    simp only [run_unless_ok hs, run_bind_ok, run_pure_ok] at hr
    obtain ⟨-, k, -, before, k', -, rfl, -⟩ := hr
    exact ⟨bodyAsyncLoops_of_isStraight fun t ht => effectStmts_isStraight ht, arePlain_nil⟩
  | .declare kind ds, ss, n, m, hr => .ofRun hr fun hs => by
    rw [Stmt.lower, run_unless_ok hs] at hr
    obtain ⟨-, -, -, hstraight, -⟩ := lowerDeclarators_sound inAsync kind ds ss n m hr
    exact ⟨bodyAsyncLoops_of_isStraight hstraight, lowerDeclarators_arePlain hr⟩
  | .ret (some e), ss, n, m, hr | .throw e, ss, n, m, hr => .ofRun hr fun hs => by
    rw [Stmt.lower] at hr
    simp only [run_unless_ok hs, run_bind_ok, run_pure_ok] at hr
    obtain ⟨h, k, -, rfl, -⟩ := hr
    exact .after rfl arePlain_nil
  | .block body, ss, n, m, hr => .ofRun hr fun hs => by
    rw [Stmt.lower] at hr
    simp only [run_unless_ok hs, run_bind_ok, run_pure_ok] at hr
    obtain ⟨b, k, hb, rfl, -⟩ := hr
    obtain ⟨hl, hp⟩ := lowerStmts_keeps inAsync body b n k hb
    exact .one hl hp
  | .ifElse test yes none, ss, n, m, hr => .ofRun hr fun hs => by
    rw [Stmt.lower] at hr
    simp only [run_unless_ok hs, run_bind_ok, run_pure_ok] at hr
    obtain ⟨h, k, -, y, k₁, hy, rfl, -⟩ := hr
    have hy := Stmt.lower_keeps inAsync yes y k k₁ hy
    exact .after (by simp [Stmt.asyncLoops, hy.loops]) hy.plain
  | .ifElse test yes (some no), ss, n, m, hr => .ofRun hr fun hs => by
    rw [Stmt.lower] at hr
    simp only [run_unless_ok hs, run_bind_ok, run_pure_ok] at hr
    obtain ⟨h, k, -, y, k₁, hy, o, k₂, ho, rfl, -⟩ := hr
    have hy := Stmt.lower_keeps inAsync yes y k k₁ hy
    have ho := Stmt.lower_keeps inAsync no o k₁ k₂ ho
    exact .after (by simp [Stmt.asyncLoops, hy.loops, ho.loops])
      (by simp [Stmt.patterns, hy.plain, ho.plain])
  | .whileDo test body, ss, n, m, hr => .ofRun hr fun hs => by
    rw [Stmt.lower] at hr
    simp only [run_unless_ok hs, run_bind_ok, run_pure_ok] at hr
    obtain ⟨t, k, -, b, k₁, hb, rfl, -⟩ := hr
    have hb := Stmt.lower_keeps inAsync body b k k₁ hb
    exact .one (by simp [Stmt.asyncLoops, hb.loops]) hb.plain
  | .doWhile body test, ss, n, m, hr => .ofRun hr fun hs => by
    rw [Stmt.lower] at hr
    simp only [run_unless_ok hs, run_bind_ok, run_pure_ok] at hr
    obtain ⟨t, k, -, b, k₁, hb, rfl, -⟩ := hr
    have hb := Stmt.lower_keeps inAsync body b k k₁ hb
    exact .one (by simp [Stmt.asyncLoops, hb.loops]) hb.plain
  | .forLoop init test update body, ss, n, m, hr => .ofRun hr fun hs => by
    rw [Stmt.lower] at hr
    simp only [run_unless_ok hs, run_bind_ok, run_pure_ok] at hr
    obtain ⟨⟨before, i⟩, k, hi, t, k₁, -, u, k₂, -, b, k₃, hb, rfl, -⟩ := hr
    have hb := Stmt.lower_keeps inAsync body b k₂ k₃ hb
    exact .after (by simp [Stmt.asyncLoops, hb.loops])
      (by simp [Stmt.patterns, ForInit.lower_arePlain hi, hb.plain])
  | .forIn target subject body, ss, n, m, hr => .ofRun hr fun hs => by
    rw [Stmt.lower] at hr
    simp only [run_unless_ok hs, run_bind_ok, run_pure_ok, run_check_ok] at hr
    obtain ⟨-, k, ⟨hp, rfl⟩, h, k₁, -, b, k₂, hb, rfl, -⟩ := hr
    have hb := Stmt.lower_keeps inAsync body b k₁ k₂ hb
    exact .after (by simp [Stmt.asyncLoops, hb.loops]) (by simp [Stmt.patterns, hp, hb.plain])
  | .forOf target subject body isAwait, ss, n, m, hr => .ofRun hr fun hs => by
    rw [Stmt.lower] at hr
    simp only [run_unless_ok hs, run_bind_ok, run_pure_ok, run_check_ok] at hr
    obtain ⟨-, k, ⟨hp, rfl⟩, h, k₁, -, b, k₂, hb, rfl, -⟩ := hr
    have hb := Stmt.lower_keeps inAsync body b k₁ k₂ hb
    exact .after (by simp [Stmt.asyncLoops, hb.loops]) (by simp [Stmt.patterns, hp, hb.plain])
  | .tryCatch block none none, ss, n, m, hr => .ofRun hr fun hs => by
    rw [Stmt.lower] at hr
    simp only [run_unless_ok hs, run_bind_ok, run_pure_ok] at hr
    obtain ⟨b, k, hb, rfl, -⟩ := hr
    obtain ⟨hl, hp⟩ := lowerStmts_keeps inAsync block b n k hb
    exact .one hl hp
  | .tryCatch block none (some finalizer), ss, n, m, hr => .ofRun hr fun hs => by
    rw [Stmt.lower] at hr
    simp only [run_unless_ok hs, run_bind_ok, run_pure_ok] at hr
    obtain ⟨f, k, hf, b, k₁, hb, rfl, -⟩ := hr
    obtain ⟨hfl, hfp⟩ := lowerStmts_keeps inAsync finalizer f n k hf
    obtain ⟨hbl, hbp⟩ := lowerStmts_keeps inAsync block b k k₁ hb
    exact .one (by simp [Stmt.asyncLoops, hbl, hfl]) (by simp [Stmt.patterns, hbp, hfp])
  | .tryCatch block (some (.mk param handler)) none, ss, n, m, hr => .ofRun hr fun hs => by
    rw [Stmt.lower] at hr
    simp only [run_unless_ok hs, run_guard_ok, run_bind_ok, run_pure_ok] at hr
    obtain ⟨hp, h, k, hh, b, k₁, hb, rfl, -⟩ := hr
    have hp : ArePlain inAsync param.toList := arePlain_toList (by simpa using hp)
    obtain ⟨hhl, hhp⟩ := lowerStmts_keeps inAsync handler h n k hh
    obtain ⟨hbl, hbp⟩ := lowerStmts_keeps inAsync block b k k₁ hb
    exact .one (by simp [Stmt.asyncLoops, hbl, hhl]) (by simp [Stmt.patterns, hbp, hhp, hp])
  | .tryCatch block (some (.mk param handler)) (some finalizer), ss, n, m, hr =>
    .ofRun hr fun hs => by
    rw [Stmt.lower] at hr
    simp only [run_unless_ok hs, run_guard_ok, run_bind_ok, run_pure_ok] at hr
    obtain ⟨hp, h, k, hh, f, k₁, hf, b, k₂, hb, rfl, -⟩ := hr
    have hp : ArePlain inAsync param.toList := arePlain_toList (by simpa using hp)
    obtain ⟨hhl, hhp⟩ := lowerStmts_keeps inAsync handler h n k hh
    obtain ⟨hfl, hfp⟩ := lowerStmts_keeps inAsync finalizer f k k₁ hf
    obtain ⟨hbl, hbp⟩ := lowerStmts_keeps inAsync block b k₁ k₂ hb
    exact .one (by simp [Stmt.asyncLoops, hbl, hhl, hfl])
      (by simp [Stmt.patterns, hbp, hhp, hfp, hp])
  | .switch subject cases, ss, n, m, hr => .ofRun hr fun hs => by
    rw [Stmt.lower] at hr
    simp only [run_unless_ok hs, run_bind_ok, run_pure_ok] at hr
    obtain ⟨h, k, -, cs, k₁, hc, rfl, -⟩ := hr
    obtain ⟨hl, hp⟩ := lowerCases_keeps inAsync cases cs k k₁ hc
    exact .after hl hp
  | .labeled label body, ss, n, m, hr => .ofRun hr fun hs => by
    rw [Stmt.lower] at hr
    simp only [run_unless_ok hs, run_bind_ok, run_pure_ok] at hr
    obtain ⟨b, k, hb, rfl, -⟩ := hr
    have hb := Stmt.lower_keeps inAsync body b n k hb
    exact ⟨by rw [bodyAsyncLoops_labelLast, hb.loops, Stmt.asyncLoops], hb.plain⟩

theorem lowerStmts_keeps (inAsync : Bool) : (body ss : List Stmt) → (n m : SlotNumber) →
    (lowerStmts inAsync body).run n = .ok (ss, m) →
    bodyAsyncLoops ss = bodyAsyncLoops body ∧ ArePlain inAsync (bodyPatterns body)
  | [], ss, n, m, hr => by
    obtain ⟨rfl, -⟩ := (run_pure_ok ..).1 hr
    exact ⟨rfl, arePlain_nil⟩
  | s :: body, ss, n, m, hr => by
    simp only [lowerStmts, run_bind_ok, run_pure_ok] at hr
    obtain ⟨first, k, hf, rest, k₁, hrest, rfl, -⟩ := hr
    have hf := Stmt.lower_keeps inAsync s first n k hf
    obtain ⟨hl, hp⟩ := lowerStmts_keeps inAsync body rest k k₁ hrest
    exact ⟨by simp [bodyAsyncLoops_append, bodyAsyncLoops, hf.loops, hl],
      by simp [bodyPatterns, hf.plain, hp]⟩

theorem lowerCases_keeps (inAsync : Bool) : (cases cs : List Case) → (n m : SlotNumber) →
    (lowerCases inAsync cases).run n = .ok (cs, m) →
    caseAsyncLoops cs = caseAsyncLoops cases ∧ ArePlain inAsync (casePatterns cases)
  | [], cs, n, m, hr => by
    obtain ⟨rfl, -⟩ := (run_pure_ok ..).1 hr
    exact ⟨rfl, arePlain_nil⟩
  | .mk test body :: cases, cs, n, m, hr => by
    simp only [lowerCases, run_guard_ok, run_bind_ok, run_pure_ok] at hr
    obtain ⟨-, b, k, hb, rest, k₁, hrest, rfl, -⟩ := hr
    obtain ⟨hbl, hbp⟩ := lowerStmts_keeps inAsync body b n k hb
    obtain ⟨hl, hp⟩ := lowerCases_keeps inAsync cases rest k k₁ hrest
    exact ⟨by simp [caseAsyncLoops, hbl, hl], by simp [casePatterns, hbp, hp]⟩

end

section Census

variable (inAsync : Bool) (k : SuspendKind)

def countKind (forms : List SuspendForm) : Nat := forms.countP (·.kind = k)

@[simp] theorem countKind_nil : countKind k [] = 0 := rfl

@[simp] theorem countKind_append (fs gs : List SuspendForm) :
    countKind k (fs ++ gs) = countKind k fs + countKind k gs := List.countP_append

@[simp] theorem points_add (a b : Census) : (a + b).points k = a.points k + b.points k := by
  cases k <;> rfl

@[simp] theorem points_none : Census.none.points k = 0 := by cases k <;> rfl

@[simp] theorem points_oneTry : Census.oneTry.points k = 0 := by cases k <;> rfl

@[simp] theorem points_oneLoop : Census.oneLoop.points k = 0 := by cases k <;> rfl

theorem points_ofSuspend (e : Expr) :
    (Census.ofSuspend e).points k = if e.form.kind = k then 1 else 0 := by
  cases e <;> cases k <;> rfl

@[simp] theorem points_ofExpr (e : Expr) :
    (Census.ofExpr inAsync e).points k = countKind k (e.forms inAsync) := by
  rw [Census.ofExpr, Expr.forms]
  induction e.suspends inAsync with
  | nil => simp
  | cons d ds ih => simp [countKind, List.countP_cons, points_ofSuspend, ih, Nat.add_comm]

@[simp] theorem points_ofOption (e : Option Expr) :
    (Census.ofOption inAsync e).points k = countKind k (optionForms inAsync e) := by
  cases e <;> simp [Census.ofOption, optionForms]

@[simp] theorem points_ofDeclarators (ds : List Declarator) :
    (Census.ofDeclarators inAsync ds).points k =
      countKind k (ds.flatMap (Declarator.forms inAsync)) := by
  rw [Census.ofDeclarators]
  induction ds with
  | nil => simp
  | cons d ds ih =>
    obtain ⟨p, init⟩ := d
    simp [Declarator.forms, ih]

@[simp] theorem points_ofForInit (init : ForInit) :
    (Census.ofForInit inAsync init).points k = countKind k (init.forms inAsync) := by
  cases init <;> simp [Census.ofForInit, ForInit.forms]

/-- How many of the loops count for a kind: a `for await` loop awaits. -/
def loopPoints (loops : Nat) : Nat := if k = .await then loops else 0

@[simp] theorem loopPoints_zero : loopPoints k 0 = 0 := by simp [loopPoints]

@[simp] theorem loopPoints_add (m n : Nat) :
    loopPoints k (m + n) = loopPoints k m + loopPoints k n := by
  simp only [loopPoints]
  split <;> rfl

theorem points_asyncLoop (isAwait : Bool) :
    (if isAwait then Census.oneAwait else Census.none).points k = loopPoints k isAwait.toNat := by
  cases isAwait <;> cases k <;> rfl

mutual

/-- A census counts the suspend expressions by their kind, and the `for await` loops as awaits. -/
theorem census_points : (s : Stmt) → (Census.ofStmt inAsync s).points k =
    countKind k (s.forms inAsync) + loopPoints k s.asyncLoops
  | .empty | .brk _ | .cont _ | .function _ _ => by
    simp [Census.ofStmt, Stmt.forms, Stmt.asyncLoops]
  | .expr e | .throw e | .ret e | .declare _ e => by
    simp [Census.ofStmt, Stmt.forms, Stmt.asyncLoops]
  | .block b => by simp [Census.ofStmt, Stmt.forms, Stmt.asyncLoops, body_points b]
  | .ifElse t y none => by
    simp [Census.ofStmt, Stmt.forms, Stmt.asyncLoops, census_points y]
    omega
  | .ifElse t y (some n) => by
    simp [Census.ofStmt, Stmt.forms, Stmt.asyncLoops, census_points y, census_points n]
    omega
  | .whileDo t b | .doWhile b t => by
    simp [Census.ofStmt, Stmt.forms, Stmt.asyncLoops, census_points b]
    omega
  | .forLoop i t u b => by
    simp [Census.ofStmt, Stmt.forms, Stmt.asyncLoops, census_points b]
    omega
  | .forIn p e b => by
    simp [Census.ofStmt, Stmt.forms, Stmt.asyncLoops, census_points b]
    omega
  | .forOf p e b isAwait => by
    simp [Census.ofStmt, Stmt.forms, Stmt.asyncLoops, census_points b, points_asyncLoop]
    omega
  | .tryCatch b none none => by simp [Census.ofStmt, Stmt.forms, Stmt.asyncLoops, body_points b]
  | .tryCatch b none (some f) => by
    simp [Census.ofStmt, Stmt.forms, Stmt.asyncLoops, body_points b, body_points f]
    omega
  | .tryCatch b (some (.mk _ h)) none => by
    simp [Census.ofStmt, Stmt.forms, Stmt.asyncLoops, body_points b, body_points h]
    omega
  | .tryCatch b (some (.mk _ h)) (some f) => by
    simp [Census.ofStmt, Stmt.forms, Stmt.asyncLoops, body_points b, body_points h, body_points f]
    omega
  | .switch e cases => by
    simp [Census.ofStmt, Stmt.forms, Stmt.asyncLoops, case_points cases]
    omega
  | .labeled _ s => census_points s

theorem body_points : (ss : List Stmt) → (Census.ofBody inAsync ss).points k =
    countKind k (bodyForms inAsync ss) + loopPoints k (bodyAsyncLoops ss)
  | [] => by simp [Census.ofBody, bodyForms, bodyAsyncLoops]
  | s :: ss => by
    simp [Census.ofBody, bodyForms, bodyAsyncLoops, census_points s, body_points ss]
    omega

theorem case_points : (cases : List Case) → (Census.ofCases inAsync cases).points k =
    countKind k (caseForms inAsync cases) + loopPoints k (caseAsyncLoops cases)
  | [] => by simp [Census.ofCases, caseForms, caseAsyncLoops]
  | .mk t body :: cases => by
    simp [Census.ofCases, caseForms, caseAsyncLoops, body_points body, case_points cases]
    omega

end

end Census

end Resumable
