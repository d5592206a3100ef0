import Resumable.Plan.Emitter
import Resumable.Proofs.Plan.Valid

/-!
Code written at the end of a list, with placeholders that are overwritten later, is the fragment made
for that position. Main definition: `Agrees`, with what it takes to follow a builder step by step;
effects, conditions and the other parts of statements are written so.
-/

set_option autoImplicit false

namespace Resumable

namespace Emitter

def grow (b : Emitter) (code : List Instr) (n : Nat) : Emitter :=
  { b with code := b.code ++ code, temps := b.temps ++ (List.range' b.temps.length n).map tempName }

/-- Whether a state is reached by writing: what was written before stands, and nothing is left
entered. -/
structure Follows (b c : Emitter) : Prop where
  code : b.code <+: c.code
  breakables : c.breakables = b.breakables

section

variable (b : Emitter) (code code' : List Instr) (m n : Nat)

@[simp] theorem code_grow : (b.grow code n).code = b.code ++ code := rfl

@[simp] theorem length_temps_grow : (b.grow code n).temps.length = b.temps.length + n := by
  simp [grow]

@[simp] theorem inAsync_grow : (b.grow code n).inAsync = b.inAsync := rfl

@[simp] theorem breakables_grow : (b.grow code n).breakables = b.breakables := rfl

@[simp] theorem around_grow : (b.grow code n).around = b.around := rfl

@[simp] theorem grow_nil : b.grow [] 0 = b := by simp [grow]

@[simp] theorem grow_grow : (b.grow code m).grow code' n = b.grow (code ++ code') (m + n) := by
  simp only [grow, List.length_append, List.length_map, List.length_range', List.append_assoc,
    ← List.map_append, List.range'_append_1]

@[simp] theorem code_enter (labels : List String) (kind : LoopKind) :
    (b.enter labels kind).code = b.code := rfl

@[simp] theorem temps_enter (labels : List String) (kind : LoopKind) :
    (b.enter labels kind).temps = b.temps := rfl

theorem follows_grow : b.Follows (b.grow code n) := ⟨⟨code, rfl⟩, rfl⟩

theorem follows_refl : b.Follows b := ⟨List.prefix_refl _, rfl⟩

variable {b} in
theorem Follows.trans {c d : Emitter} (h : b.Follows c) (h' : c.Follows d) : b.Follows d :=
  ⟨h.code.trans h'.code, h'.breakables.trans h.breakables⟩

variable {b} in
theorem Follows.rewind {c : Emitter} (h : b.Follows c) :
    (c.rewind b).code = b.code ∧ (c.rewind b).breakables = b.breakables := by
  simp [Emitter.rewind, h.breakables, ← List.prefix_iff_eq_take.1 h.code]

end

end Emitter

namespace Emit

variable {α β : Type} (b : Emitter)

def runOn (x : Emit α) (b : Emitter) : Except Refusal α × Emitter := x.run.run b

@[simp] theorem runOn_pure (a : α) : (pure a : Emit α).runOn b = (.ok a, b) := rfl

@[simp] theorem runOn_throw (r : Refusal) : (throw r : Emit α).runOn b = (.error r, b) := rfl

@[simp] theorem runOn_get_bind (k : Emitter → Emit β) : (get >>= k).runOn b = (k b).runOn b := rfl

@[simp] theorem runOn_write (i : Instr) : (write i).runOn b = (.ok b.code.length, b.grow [i] 0) := by
  simp [Emitter.grow]
  rfl

theorem runOn_bind_ok {x : Emit α} {a : α} {c : Emitter} (h : x.runOn b = (.ok a, c))
    (k : α → Emit β) : (x >>= k).runOn b = (k a).runOn c := by
  simp only [runOn] at h
  simp only [runOn, ExceptT.run_bind, StateT.run_bind, h]
  rfl

theorem runOn_bind_error {x : Emit α} {r : Refusal} {c : Emitter} (h : x.runOn b = (.error r, c))
    (k : α → Emit β) : (x >>= k).runOn b = (.error r, c) := by
  simp only [runOn] at h
  simp only [runOn, ExceptT.run_bind, StateT.run_bind, h]
  rfl

@[simp] theorem runOn_write_bind (i : Instr) (k : Nat → Emit β) :
    (write i >>= k).runOn b = (k b.code.length).runOn (b.grow [i] 0) :=
  runOn_bind_ok b (runOn_write b i) k

theorem runOn_write_to (p : Nat) {i : Instr} {k : Nat → Emit β} (hp : b.code.length = p) :
    (write i >>= k).runOn b = (k p).runOn (b.grow [i] 0) := by
  rw [← hp, runOn_write_bind]

theorem runOn_freshTemp_bind (k : String → Emit β) :
    (freshTemp >>= k).runOn b = (k (tempName b.temps.length)).runOn (b.grow [] 1) := by
  refine runOn_bind_ok _ (a := tempName b.temps.length) ?_ k
  simp [Emitter.grow]
  rfl

@[simp] theorem runOn_overwrite_bind (code : List Instr) (n k : Nat) (i : Instr) (f : Unit → Emit β) :
    (overwrite (b.code.length + k) i >>= f).runOn (b.grow code n) =
      (f ()).runOn (b.grow (code.set k i) n) := by
  refine runOn_bind_ok _ (a := ()) ?_ f
  have h : (b.code ++ code).set (b.code.length + k) i = b.code ++ code.set k i := by
    rw [List.set_append_right _ _ (Nat.le_add_right ..), Nat.add_sub_cancel_left]
  simp only [Emitter.grow, ← h]
  rfl

theorem runOn_orUndo (x : Emit Nat) :
    (orUndo x).runOn b = match x.runOn b with
      | (.ok a, c) => (.ok a, c)
      | (.error r, c) => (.error r, c.rewind b) := by
  change StateT.run (ExceptT.run (tryCatch x _)) b = _
  simp only [runOn, tryCatch, tryCatchThe, MonadExceptOf.tryCatch, ExceptT.tryCatch,
    ExceptT.run, ExceptT.mk, StateT.run, bind, StateT.bind]
  rcases x b with ⟨_ | _, _⟩ <;> rfl

theorem runOn_inside (labels : List String) (kind : LoopKind) (x : Emit α) :
    (inside labels kind x).runOn b =
      ((x.runOn (b.enter labels kind)).1, (x.runOn (b.enter labels kind)).2.leave) := by
  have h : (inside labels kind x).runOn b =
      (tryFinally x (modify Emitter.leave : Emit PUnit)).runOn (b.enter labels kind) := rfl
  rw [h]
  simp only [runOn, tryFinally, tryFinally', ExceptT.run, ExceptT.mk, StateT.run, bind, StateT.bind,
    Functor.map, ExceptT.map]
  rcases x (b.enter labels kind) with ⟨_ | _, _⟩ <;> rfl
end Emit

/-- Whether writing gives what building gives: the same result with the same code at the end, or the
same refusal, with what was there before untouched. -/
inductive Agrees {α β : Type} (parts : β → List Instr × α) (b : Emitter)
    (built : Except Refusal (β × Nat)) (written : Except Refusal α × Emitter) : Prop where
  | ok (f : β) (n : Nat) : built = .ok (f, b.temps.length + n) →
    written = (.ok (parts f).2, b.grow (parts f).1 n) → Agrees parts b built written
  | error (r : Refusal) (c : Emitter) : built = .error r → written = (.error r, c) → b.Follows c →
    Agrees parts b built written

def Fragment.parts (f : Fragment) : List Instr × Nat := (f.code, f.entry)

@[simp] theorem Fragment.parts_fst (f : Fragment) : f.parts.1 = f.code := rfl

@[simp] theorem Fragment.parts_snd (f : Fragment) : f.parts.2 = f.entry := rfl

theorem Fragment.size_close (base : Nat) (f : Fragment) (i : Instr) :
    (f.close base i).size = f.size + 1 := by
  simp [close]

namespace Agrees

variable {α β γ δ : Type} {parts : β → List Instr × α} {parts' : γ → List Instr × δ} {b : Emitter}

theorem done {f : β} {a : α} {code : List Instr} {m n : Nat} (hm : m = b.temps.length + n)
    (hc : (parts f).1 = code) (ha : (parts f).2 = a) :
    Agrees parts b ((pure f : Build β).run m) (.ok a, b.grow code n) := by
  subst hm hc ha
  exact .ok f n rfl rfl

theorem refused {r : Refusal} {m : Nat} :
    Agrees parts b ((Build.ofExcept (throw r) : Build β).run m) (.error r, b) :=
  .error r b rfl rfl b.follows_refl

theorem bind {code : List Instr} {m n : Nat} {X : Build β} {F : β → Build γ} {x : Emit α}
    {k : α → Emit δ} (hx : Agrees parts (b.grow code n) (X.run m) (x.runOn (b.grow code n)))
    (hk : ∀ f j, Agrees parts' b ((F f).run (b.temps.length + (n + j)))
      ((k (parts f).2).runOn (b.grow (code ++ (parts f).1) (n + j)))) :
    Agrees parts' b ((X >>= F).run m) ((x >>= k).runOn (b.grow code n)) := by
  cases hx with
  | ok f j hX hx =>
    rw [Emit.runOn_bind_ok _ hx, Emitter.grow_grow]
    have h : (X >>= F).run m = (F f).run (b.temps.length + (n + j)) := by
      rw [StateT.run_bind, hX, Emitter.length_temps_grow, Nat.add_assoc]
      rfl
    rw [h]
    exact hk f j
  | error r c hX hx hc =>
    rw [Emit.runOn_bind_error _ hx, StateT.run_bind, hX]
    exact .error r c rfl rfl ((b.follows_grow _ _).trans hc)

theorem first {m : Nat} {X : Build β} {F : β → Build γ} {x : Emit α} {k : α → Emit δ}
    (hx : Agrees parts b (X.run m) (x.runOn b))
    (hk : ∀ f j, Agrees parts' b ((F f).run (b.temps.length + j))
      ((k (parts f).2).runOn (b.grow (parts f).1 j))) :
    Agrees parts' b ((X >>= F).run m) ((x >>= k).runOn b) := by
  have h (hx : Agrees parts (b.grow [] 0) (X.run m) (x.runOn (b.grow [] 0)))
      (hk : ∀ f j, Agrees parts' b ((F f).run (b.temps.length + (0 + j)))
        ((k (parts f).2).runOn (b.grow ([] ++ (parts f).1) (0 + j)))) := bind hx hk
  simp only [Emitter.grow_nil, Nat.zero_add, List.nil_append] at h
  exact h hx hk

theorem last {code : List Instr} {m n : Nat} {X : Build β} {g : β → γ} {x : Emit δ}
    {parts : β → List Instr × δ}
    (hx : Agrees parts (b.grow code n) (X.run m) (x.runOn (b.grow code n)))
    (hg : ∀ f, parts' (g f) = (code ++ (parts f).1, (parts f).2)) :
    Agrees parts' b ((X >>= fun f => pure (g f)).run m) (x.runOn (b.grow code n)) := by
  rw [← bind_pure x]
  refine hx.bind fun f j => ?_
  exact .done rfl (by rw [hg]) (by rw [hg])

theorem skip {next m : Nat} (hm : b.temps.length = m) :
    Agrees Fragment.parts b ((pure (.skip next) : Build Fragment).run m) (.ok next, b) := by
  subst hm
  exact .ok (.skip next) 0 rfl (by simp [Fragment.parts, Fragment.skip])

theorem one {i : Instr} {base m : Nat} (hbase : b.code.length = base) (hm : b.temps.length = m) :
    Agrees Fragment.parts b ((pure (.one base i) : Build Fragment).run m)
      ((Emit.write i).runOn b) := by
  subst hbase hm
  rw [Emit.runOn_write]
  exact .done rfl rfl rfl

theorem orUndo {built : Except Refusal (Fragment × Nat)} {x : Emit Nat}
    (hx : Agrees Fragment.parts b built (x.runOn b)) :
    Agrees Fragment.parts b built ((Emit.orUndo x).runOn b) := by
  rw [Emit.runOn_orUndo]
  cases hx with
  | ok f n hX hx => exact .ok f n hX (by rw [hx])
  | error r c hX hx hc =>
    have hb := hc.rewind
    exact .error r (c.rewind b) hX (by rw [hx]) ⟨⟨[], by rw [hb.1, List.append_nil]⟩, hb.2⟩

theorem inside {built : Except Refusal (β × Nat)} {x : Emit α} {labels : List String}
    {kind : LoopKind} (hx : Agrees parts (b.enter labels kind) built (x.runOn (b.enter labels kind))) :
    Agrees parts b built ((Emit.inside labels kind x).runOn b) := by
  rw [Emit.runOn_inside]
  cases hx with
  | ok f n hX hx =>
    rw [hx]
    exact .ok f n hX rfl
  | error r c hX hx hc =>
    rw [hx]
    exact .error r c.leave hX rfl ⟨hc.code, by simp [Emitter.leave, hc.breakables, Emitter.enter]⟩

end Agrees

theorem ofExcept_pure {α : Type} (a : α) : Build.ofExcept (pure a) = pure a := rfl

theorem ofExcept_bind {α β : Type} (x : Except Refusal α) (f : α → Except Refusal β) :
    Build.ofExcept (x >>= f) = Build.ofExcept x >>= fun a => Build.ofExcept (f a) := by
  cases x <;> rfl

open Emit

theorem run_freshTemp_bind {β : Type} (F : String → Build β) (n : Nat) :
    (Resumable.freshTemp >>= F).run n = (F (tempName n)).run (n + 1) := rfl

section Pieces

variable {b : Emitter}

theorem emitSuspend_agrees (slot : Option String) (next : Nat) (e : Expr) {base m : Nat}
    (hbase : b.code.length = base) (hm : b.temps.length = m) :
    Agrees Fragment.parts b ((Build.ofExcept (e.buildSuspend b.inAsync slot base next)).run m)
      ((emitSuspend slot next e).runOn b) := by
  subst hbase hm
  have step (i : Nat → Instr) : Agrees Fragment.parts b
      ((pure ⟨[.store slot next, i b.code.length], b.code.length + 1⟩ : Build Fragment).run
        b.temps.length)
      ((do write (i (← write (.store slot next))) : Emit Nat).runOn b) := by
    rw [runOn_write_bind, runOn_write, Emitter.grow_grow]
    exact .done rfl rfl (by simp [Fragment.parts])
  rw [emitSuspend, runOn_get_bind]
  cases e with
  | yield operand =>
    cases operand with
    | none => exact step (.yield none)
    | some e =>
      simp only [Expr.buildSuspend, Option.any_some]
      split
      · exact .refused
      · exact step (.yield (some e))
  | yieldStar operand =>
    cases operand with
    | none => exact .refused
    | some e =>
      simp only [Expr.buildSuspend]
      split
      · exact .refused
      · exact step (.yieldStar e)
  | await e =>
    simp only [Expr.buildSuspend]
    split
    · exact .refused
    · exact step (.await e)
  | _ => exact .refused

end Pieces

mutual

theorem emitEffect_agrees : (e : Expr) → (next : Nat) → (b : Emitter) → (base m : Nat) →
    e.hasSuspend b.inAsync = true → b.code.length = base → b.temps.length = m →
    Agrees Fragment.parts b ((Build.ofExcept (e.buildEffect b.inAsync base next)).run m)
      ((e.emitEffect next).runOn b)
  | e, next, b, base, m, hs, hbase, hm => by
    rw [Expr.buildEffect.eq_def, Expr.emitEffect.eq_def]
    simp only [hs, Bool.not_true, Bool.false_eq_true, ↓reduceIte]
    split
    · exact emitEffects_agrees _ next b base m hbase hm
    · exact emitSuspend_agrees _ next _ hbase hm
    · rename_i target value hn
      cases target with
      | ident name => exact (hn _ rfl).elim
      | _ => exact .refused
    · rename_i hseq hname hset
      have hsuspend := emitSuspend_agrees none next e hbase hm
      cases e with
      | seq items => exact (hseq _ rfl).elim
      | assign op target value =>
        cases op with
        | set => exact (hset _ _ rfl).elim
        | _ => exact hsuspend
      | _ => exact hsuspend
termination_by e => sizeOf e
decreasing_by all_goals (subst_vars; simp +arith)

theorem emitEffects_agrees : (es : List Expr) → (next : Nat) → (b : Emitter) → (base m : Nat) →
    b.code.length = base → b.temps.length = m →
    Agrees Fragment.parts b ((Build.ofExcept (buildEffects b.inAsync base next es)).run m)
      ((emitEffects next es).runOn b)
  | [], next, b, base, m, hbase, hm => by
    rw [buildEffects, emitEffects, ofExcept_pure]
    exact .skip hm
  | e :: es, next, b, base, m, hbase, hm => by
    simp only [buildEffects, emitEffects, ofExcept_bind, ofExcept_pure]
    refine .first (emitEffects_agrees es next b base m hbase hm) fun rest j => .last (.orUndo ?_) ?_
    · rw [runOn_get_bind]
      cases hs : e.hasSuspend b.inAsync with
      | false =>
        rw [Expr.buildEffect.eq_def]
        simp only [hs, Emitter.inAsync_grow, Bool.not_false, ↓reduceIte]
        exact .one (by simp [Fragment.parts, hbase]) (by simp)
      | true =>
        simp only [hs, Emitter.inAsync_grow, Bool.not_true, Bool.false_eq_true, ↓reduceIte]
        exact emitEffect_agrees e _ (b.grow _ _) _ _ hs (by simp [Fragment.parts, hbase]) (by simp)
    · exact fun first => rfl
termination_by es => sizeOf es
decreasing_by all_goals simp +arith

end

section Pieces

variable {b : Emitter} {base m : Nat}

theorem emitOne_agrees (e : Expr) (next : Nat) (hbase : b.code.length = base)
    (hm : b.temps.length = m) :
    Agrees Fragment.parts b ((Build.ofExcept (e.buildEffect b.inAsync base next)).run m)
      ((emitEffects next [e]).runOn b) := by
  have h := emitEffects_agrees [e] next b base m hbase hm
  have he : buildEffects b.inAsync base next [e] = e.buildEffect b.inAsync base next := by
    simp only [buildEffects, Fragment.skip, pure_bind, Fragment.size_mk, List.length_nil,
      Nat.add_zero, List.nil_append]
    exact bind_pure _
  rwa [he] at h

theorem emitCondition_agrees (e : Expr) (onTrue onFalse : Nat) (hbase : b.code.length = base)
    (hm : b.temps.length = m) :
    Agrees Fragment.parts b
      ((Build.ofExcept (e.buildCondition b.inAsync base onTrue onFalse)).run m)
      ((e.emitCondition onTrue onFalse).runOn b) := by
  rw [Expr.buildCondition.eq_def, Expr.emitCondition.eq_def, runOn_get_bind]
  cases hs : e.hasSuspend b.inAsync with
  | false => exact .one hbase hm
  | true =>
    simp only [Bool.not_true, Bool.false_eq_true, ↓reduceIte]
    cases e with
    | seq items =>
      cases hl : items.getLast? with
      | none =>
        simp only [hl]
        exact .refused
      | some last =>
        subst hbase
        simp only [hl]
        rw [runOn_write_bind, ofExcept_bind]
        exact .last (emitEffects_agrees _ _ (b.grow _ 0) _ m (by simp) (by simpa using hm))
          fun first => rfl
    | _ => exact .refused

theorem emitTest_agrees (test : Option Expr) (onTrue onFalse : Nat) (hbase : b.code.length = base)
    (hm : b.temps.length = m) :
    Agrees Fragment.parts b ((Build.ofExcept (buildTest b.inAsync base onTrue onFalse test)).run m)
      ((emitTest onTrue onFalse test).runOn b) := by
  cases test with
  | none => exact .skip hm
  | some e => exact emitCondition_agrees e onTrue onFalse hbase hm

theorem emitUpdate_agrees (update : Option Expr) (next : Nat) (hbase : b.code.length = base)
    (hm : b.temps.length = m) :
    Agrees Fragment.parts b ((Build.ofExcept (buildUpdate b.inAsync base next update)).run m)
      ((emitUpdate next update).runOn b) := by
  cases update with
  | none => exact .skip hm
  | some e => exact emitOne_agrees e next hbase hm

theorem emitInit_agrees (init : ForInit) (next : Nat) (hbase : b.code.length = base)
    (hm : b.temps.length = m) :
    Agrees Fragment.parts b ((Build.ofExcept (init.build b.inAsync base next)).run m)
      ((init.emit next).runOn b) := by
  cases init with
  | absent => exact .skip hm
  | expr e => exact emitOne_agrees e next hbase hm
  | declare kind ds =>
    rw [ForInit.build, ForInit.emit]
    refine .orUndo ?_
    rw [runOn_get_bind]
    split
    · exact .refused
    · exact .one hbase hm

theorem emitTests_runOn (subject : String) (otherwise : Nat) (cases : List (Case × Nat)) (base : Nat)
    (hbase : b.code.length = base) :
    (emitTests subject otherwise cases).runOn b =
      (.ok (buildTests subject base otherwise cases).entry,
        b.grow (buildTests subject base otherwise cases).code 0) := by
  subst hbase
  induction cases with
  | nil => exact runOn_write b _
  | cons c cases ih =>
    obtain ⟨c, entry⟩ := c
    rw [emitTests, runOn_bind_ok b ih, buildTests]
    cases c.test with
    | none => rfl
    | some test => simp [Fragment.close]

theorem emitLeaf_agrees (s : Stmt) (next : Nat) (hbase : b.code.length = base)
    (hm : b.temps.length = m) :
    Agrees Fragment.parts b ((Build.ofExcept (s.buildLeaf b.around base next)).run m)
      ((s.emitLeaf next).runOn b) := by
  have jump (label : Option String) (isContinue : Bool) (i : Instr) :
      Agrees Fragment.parts b
        ((Build.ofExcept do
          b.around.checkJump label isContinue
          return .one base i).run m)
        ((do
          Stmt.emitLeaf.liftExcept ((← get).around.checkJump label isContinue)
          write i : Emit Nat).runOn b) := by
    rw [runOn_get_bind]
    cases h : b.around.checkJump label isContinue with
    | error r => exact .refused
    | ok u => exact .one hbase hm
  cases s with
  | brk label => exact jump label false (.brk label)
  | cont label => exact jump label true (.cont label)
  | _ => exact .one hbase hm

end Pieces

end Resumable
