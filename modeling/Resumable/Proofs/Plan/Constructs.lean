import Resumable.Proofs.Plan.Writing

/-!
Loops, protected blocks and the other constructs are written as they are built, if their bodies are. Main
definition: `Writes`.
-/

set_option autoImplicit false

namespace Resumable

open Emit

/-- Whether a writer writes what a builder builds, wherever it starts in given surroundings. -/
def Writes (around : Surroundings) (build : Nat → Nat → Build Fragment) (write : Nat → Emit Nat) :
    Prop :=
  ∀ (b : Emitter) (base next m : Nat), b.around = around → b.code.length = base → b.temps.length = m →
    Agrees Fragment.parts b ((build base next).run m) ((write next).runOn b)

theorem Writes.orUndo {around : Surroundings} {build : Nat → Nat → Build Fragment}
    {write : Nat → Emit Nat} (h : Writes around build write) :
    Writes around build (fun next => Emit.orUndo (write next)) :=
  fun b base next m ha hbase hm => (h b base next m ha hbase hm).orUndo

section Constructs

variable {around : Surroundings} {labels : List String} {build : Nat → Nat → Build Fragment}
  {body : Nat → Emit Nat}

theorem emitTestLoop_writes (test : Expr) (testsFirst : Bool) (start : Nat → Fragment → Nat)
    (hstart : ∀ base f, start base f = if testsFirst then base + 1 else f.entry)
    (hb : Writes (around.enter labels .loop) build body) :
    Writes around
      (fun base next => do
        let f ← build (base + 2) (base + 1)
        let t ← .ofExcept (test.buildCondition around.inAsync (base + 2 + f.size) f.entry base)
        return Fragment.testLoop base next labels f t (start base f))
      (fun next => emitTestLoop labels next test testsFirst body) := by
  rintro b base next m rfl rfl rfl
  simp only [emitTestLoop, reserve, runOn_write_bind, Emitter.grow_grow, Emitter.code_grow,
    List.length_append, List.length_singleton]
  refine .bind (.inside (hb _ _ _ _ rfl (by simp) (by simp))) fun f j => ?_
  refine .bind (emitCondition_agrees _ _ _ (by simp; omega) (by simp)) fun t k => ?_
  rw [runOn_overwrite_bind, runOn_write, Emitter.grow_grow]
  refine .done (by omega) ?_ ?_
  · simp [Fragment.testLoop, hstart]
  · simp [Fragment.testLoop]
    omega

theorem emitHeadLoop_writes (init : ForInit) (test update : Option Expr)
    (hb : Writes (around.enter labels .loop) build body) :
    Writes around
      (fun base next => do
        let exit := if init.isScoped then base + 1 else base
        let after := if init.isScoped then base else next
        let u ← .ofExcept (buildUpdate around.inAsync (exit + 2) (exit + 1) update)
        let c := u.step init.isScoped (exit + 2)
        let bodyBase := exit + 2 + c.size
        let b ← build bodyBase c.entry
        let t ← .ofExcept (buildTest around.inAsync (bodyBase + b.size) b.entry exit test)
        let enter := bodyBase + b.size + t.size
        let i ← .ofExcept (init.build around.inAsync (enter + 1) enter)
        let loop := Fragment.headLoop exit after labels c b t i
        return if init.isScoped then loop.inScope base next [] else loop)
      (fun next => emitHeadLoop labels next init test update body) := by
  rintro b base next m rfl rfl rfl
  cases hs : init.isScoped with
  | false =>
    simp only [emitHeadLoop, hs, reserve, runOn_write_bind, Emitter.grow_grow, Emitter.code_grow,
      List.length_append, List.length_singleton, Bool.false_eq_true, ↓reduceIte, pure_bind,
      bind_pure, Fragment.step]
    refine .bind (emitUpdate_agrees _ _ (by simp) (by simp)) fun u j => ?_
    refine .bind (.inside (hb _ _ _ _ rfl (by simp; omega) (by simp)))
      fun f k => ?_
    refine .bind (emitTest_agrees _ _ _ (by simp; omega) (by simp)) fun t l => ?_
    rw [runOn_overwrite_bind, runOn_write_to _ (b.code.length + 2 + u.size + f.size + t.size),
      Emitter.grow_grow]
    · refine .last (emitInit_agrees _ _ (by simp; omega) (by simp)) fun i => ?_
      simp [Fragment.headLoop, Fragment.parts]
    · simp
      omega
  | true =>
    simp only [emitHeadLoop, hs, reserve, runOn_write_bind, Emitter.grow_grow, Emitter.code_grow,
      List.length_append, List.length_singleton, ↓reduceIte, Fragment.step,
      Fragment.size_close]
    refine .bind (emitUpdate_agrees _ _ (by simp) (by simp)) fun u j => ?_
    rw [runOn_write_to _ (b.code.length + 1 + 2 + u.size), Emitter.grow_grow]
    · refine .bind (.inside (hb _ _ _ _ rfl (by simp; omega)
        (by simp))) fun f k => ?_
      refine .bind (emitTest_agrees _ _ _ (by simp; omega) (by simp)) fun t l => ?_
      rw [runOn_overwrite_bind, runOn_write_to _
        (b.code.length + 1 + 2 + (u.size + 1) + f.size + t.size), Emitter.grow_grow]
      · refine .bind (emitInit_agrees _ _ (by simp; omega) (by simp)) fun i _ => ?_
        rw [runOn_write, Emitter.grow_grow]
        refine .done (by omega) ?_ ?_
        · simp [Fragment.headLoop, Fragment.close, Fragment.inScope]
        · simp [Fragment.headLoop, Fragment.close, Fragment.inScope]
          omega
      · simp
        omega
    · simp
      omega

theorem emitIteration_writes (target : ForTarget) (subject : Expr) (isAsync overKeys : Bool)
    (hb : Writes (around.enter labels .loop) build body) :
    Writes around
      (fun base next => do
        let f ← build (base + 4) (base + 3)
        return Fragment.iteration base next labels target subject isAsync overKeys f)
      (fun next => emitIteration labels next target subject isAsync overKeys body) := by
  rintro b base next m rfl rfl rfl
  simp only [emitIteration, reserve, runOn_write_bind, Emitter.grow_grow, Emitter.code_grow,
    List.length_append, List.length_singleton]
  refine .bind (.inside (hb _ _ _ _ rfl (by simp) (by simp)))
    fun f j => ?_
  simp only [runOn_overwrite_bind, runOn_write_bind, runOn_write, Emitter.grow_grow]
  refine .done (by omega) ?_ ?_
  · simp [Fragment.iteration]
    omega
  · simp [Fragment.iteration]
    omega

theorem emitEnclosed_writes {build : Surroundings → Nat → Nat → Build Fragment}
    (hb : ∀ inner : Surroundings, inner.inAsync = around.inAsync → Writes inner (build inner) body) :
    Writes around (fun base next => enclose around labels base next build)
      (fun next => emitEnclosed labels next body) := by
  rintro b base next m rfl rfl rfl
  simp only [enclose, emitEnclosed]
  split
  · exact hb _ rfl _ _ _ _ rfl rfl rfl
  · rw [runOn_write_bind]
    refine .bind (.inside (.orUndo (hb (b.around.enter labels .block) rfl _ _ _ _ rfl
      (by simp) (by simp)))) fun f j => ?_
    rw [runOn_write, Emitter.grow_grow]
    refine .done (by omega) ?_ ?_
    · simp
    · simp
      omega

theorem Agrees.bindScope {γ δ : Type} {parts : γ → List Instr × δ} {b : Emitter} {base m n : Nat}
    {next : Nat} {functions : List FunctionDecl} {code : List Instr} {F : Fragment → Build γ}
    {k : Nat → Emit δ} (hb : Writes around build body) (ha : b.around = around)
    (hbase : b.code.length + code.length = base) (hm : b.temps.length + n = m)
    (hk : ∀ f j, Agrees parts b ((F f).run (m + j))
      ((k (base + 1 + f.size)).runOn
        (b.grow (code ++ (f.inScope base next functions).code) (n + j)))) :
    Agrees parts b ((build (base + 1) base >>= F).run m)
      ((emitScope next functions body >>= k).runOn (b.grow code n)) := by
  subst hbase hm
  simp only [emitScope, bind_assoc]
  rw [runOn_write_to _ (b.code.length + code.length), Emitter.grow_grow]
  · refine .bind (hb _ _ _ _ ha (by simp; omega) (by simp)) fun f j => ?_
    rw [runOn_write_to _ (b.code.length + code.length + 1 + f.size), Emitter.grow_grow]
    · have h := hk f j
      simpa [Fragment.inScope, Nat.add_assoc] using h
    · simp
      omega
  · simp

theorem emitScope_writes (functions : List FunctionDecl) (hb : Writes around build body) :
    Writes around
      (fun base next => do
        let f ← build (base + 1) base
        return Fragment.inScope base next functions f)
      (fun next => emitScope next functions body) := by
  rintro b base next m rfl rfl rfl
  have h : (emitScope next functions body).runOn b =
      (emitScope next functions body >>= pure).runOn (b.grow [] 0) := by
    rw [bind_pure, Emitter.grow_nil]
  dsimp only
  rw [h]
  exact .bindScope hb rfl (by simp) (by simp) fun f j => .done (by omega) (by simp) rfl

section Protected

variable {buildFinal buildHandler : Nat → Nat → Build Fragment} {final handler : Nat → Emit Nat}
  (functions functionsF functionsH : List FunctionDecl) (param : Option Pattern)

theorem emitTry_writes (hb : Writes around build body) :
    Writes around
      (fun base next => do
        let b ← build (base + 2) (base + 1)
        let b := b.inScope (base + 1) base functions
        return ⟨.exitTry next false :: b.code ++ [.enterTry none none b.entry], base + 1 + b.size⟩)
      (fun next => emitTry next none none fun next => emitScope next functions body) := by
  rintro b base next m rfl rfl rfl
  simp only [emitTry, emitFinalizer, emitHandler, pure_bind, runOn_write_bind]
  refine .bindScope hb rfl (by simp) (by simp) fun f j => ?_
  rw [runOn_write, Emitter.grow_grow]
  refine .done (by omega) ?_ ?_
  · simp [Fragment.inScope]
  · simp
    omega

theorem emitTry_finally_writes (hb : Writes around build body)
    (hf : Writes around buildFinal final) :
    Writes around
      (fun base next => do
        let f ← buildFinal (base + 2) (base + 1)
        let f := f.inScope (base + 1) base functionsF
        let exit := base + 1 + f.size
        let b ← build (exit + 2) (exit + 1)
        let b := b.inScope (exit + 1) exit functions
        return ⟨.endFinally next :: f.code ++ .exitTry next false :: b.code ++
            [.enterTry none (some f.entry) b.entry],
          exit + 1 + b.size⟩)
      (fun next => emitTry next (some fun next => emitScope next functionsF final) none
        fun next => emitScope next functions body) := by
  rintro b base next m rfl rfl rfl
  simp only [emitTry, emitFinalizer, emitHandler, bind_assoc, map_eq_pure_bind, pure_bind,
    runOn_write_bind]
  refine .bindScope hf rfl (by simp) (by simp) fun f j => ?_
  simp only [runOn_write_bind, Emitter.grow_grow]
  refine .bindScope hb rfl (by simp; omega) (by simp) fun f' j' => ?_
  rw [runOn_write, Emitter.grow_grow]
  refine .done (by omega) ?_ ?_
  · simp [Fragment.inScope]
    omega
  · simp
    omega

theorem emitTry_catch_writes (hb : Writes around build body)
    (hh : Writes around buildHandler handler) :
    Writes around
      (fun base next => do
        let h ← buildHandler (base + 3) (base + 2)
        let h := h.inScope (base + 2) (base + 1) functionsH
        let bind := base + 2 + h.size
        let b ← build (bind + 3) (bind + 2)
        let b := b.inScope (bind + 2) (bind + 1) functions
        return ⟨.exitTry next false :: .popScope base :: h.code ++ .bindCatch param h.entry ::
            .exitTry next false :: b.code ++ [.enterTry (some bind) none b.entry],
          bind + 2 + b.size⟩)
      (fun next => emitTry next none (some (param, fun next => emitScope next functionsH handler))
        fun next => emitScope next functions body) := by
  rintro b base next m rfl rfl rfl
  simp only [emitTry, emitFinalizer, emitHandler, bind_assoc, map_eq_pure_bind, pure_bind,
    runOn_write_bind, Emitter.grow_grow]
  refine .bindScope hh rfl (by simp) (by simp) fun f j => ?_
  simp only [runOn_write_bind, Emitter.grow_grow]
  refine .bindScope hb rfl (by simp; omega) (by simp) fun f' j' => ?_
  rw [runOn_write, Emitter.grow_grow]
  refine .done (by omega) ?_ ?_
  · simp [Fragment.inScope]
    omega
  · simp
    omega

theorem emitTry_catch_finally_writes (hb : Writes around build body)
    (hh : Writes around buildHandler handler) (hf : Writes around buildFinal final) :
    Writes around
      (fun base next => do
        let f ← buildFinal (base + 2) (base + 1)
        let f := f.inScope (base + 1) base functionsF
        let leave := base + 1 + f.size
        let h ← buildHandler (leave + 3) (leave + 2)
        let h := h.inScope (leave + 2) (leave + 1) functionsH
        let bind := leave + 2 + h.size
        let b ← build (bind + 3) (bind + 2)
        let b := b.inScope (bind + 2) (bind + 1) functions
        return ⟨.endFinally next :: f.code ++ .exitTry next false :: .popScope leave :: h.code ++
            .bindCatch param h.entry :: .exitTry next false :: b.code ++
            [.enterTry (some bind) (some f.entry) b.entry],
          bind + 2 + b.size⟩)
      (fun next => emitTry next (some fun next => emitScope next functionsF final)
        (some (param, fun next => emitScope next functionsH handler))
        fun next => emitScope next functions body) := by
  rintro b base next m rfl rfl rfl
  simp only [emitTry, emitFinalizer, emitHandler, bind_assoc, map_eq_pure_bind, pure_bind,
    runOn_write_bind]
  refine .bindScope hf rfl (by simp) (by simp) fun f j => ?_
  simp only [runOn_write_bind, Emitter.grow_grow]
  refine .bindScope hh rfl (by simp; omega) (by simp) fun f' j' => ?_
  simp only [runOn_write_bind, Emitter.grow_grow]
  refine .bindScope hb rfl (by simp; omega) (by simp; omega) fun f'' j'' => ?_
  rw [runOn_write, Emitter.grow_grow]
  refine .done (by omega) ?_ ?_
  · simp [Fragment.inScope]
    omega
  · simp
    omega

end Protected

theorem emitSwitch_writes (subject : Expr) (cases : List Case)
    (build : Nat → Nat → Build (List Instr × List Nat)) (bodies : Nat → Emit (List Nat))
    (hb : ∀ (b : Emitter) (base exit m : Nat), b.around = around.enter labels .switch →
      b.code.length = base → b.temps.length = m →
      Agrees id b ((build base exit).run m) ((bodies exit).runOn b)) :
    Writes around
      (fun base next => do
        let exit := base + 1
        let c ← build (base + 2) exit
        let name ← Resumable.freshTemp
        let testBase := base + 2 + c.1.length
        let targets := cases.zip c.2
        let t := buildTests name testBase (defaultEntry exit targets) targets
        let store := testBase + t.size
        return ⟨.popScope next :: .exitLoop base :: c.1 ++ t.code ++
            [.evaluate (.expr (.assign .set (.ident name) subject)) t.entry,
              .enterLoop labels .switch none base store,
              .pushScope (cases.flatMap fun c => declaredFunctions c.body) (store + 1)],
          store + 2⟩)
      (fun next => emitSwitch labels next subject cases bodies) := by
  rintro b base next m rfl rfl rfl
  simp only [emitSwitch, runOn_write_bind, Emitter.grow_grow, Emitter.code_grow,
    List.length_append, List.length_singleton]
  refine .bind (.inside (hb _ _ _ _ rfl (by simp) (by simp)))
    fun c j => ?_
  obtain ⟨code, entries⟩ := c
  rw [run_freshTemp_bind, runOn_freshTemp_bind, Emitter.grow_grow]
  rw [runOn_bind_ok _ (emitTests_runOn _ _ _ (b.code.length + 2 + code.length) (by simp; omega))]
  simp only [runOn_write_bind, runOn_write, Emitter.grow_grow]
  refine .done (by omega) ?_ ?_
  · simp
    omega
  · simp
    omega

end Constructs

end Resumable
