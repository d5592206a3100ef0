import Resumable.Proofs.Lowering.Fresh
import Resumable.Proofs.Lowering.Groups

/-!
The slots of a lowered body. The groups of a body draw their slots one after the other, so each slot is
written at one place, where it is looked for, and read in its own group only. Main statement:
`Groups.draws`.
-/

set_option autoImplicit false

namespace Resumable

/-- Whether code writes `k` slots, numbered from `n` up to `m`, as often as they are found in it, and
accesses no others. -/
structure Draws (n m : SlotNumber) (k : Nat) (accesses : List Access) (slots : List String) : Prop where
  next : m = n + .ofNat k
  drawn : slots.Perm (drawn n k)
  writes : ∀ x, isSlotName x = true → accesses.count (.write x) = slots.count x
  names : ∀ a ∈ accesses, isSlotName a.name = true → a.name ∈ slots

namespace Draws

variable {n m m' : SlotNumber} {j k : Nat} {as bs : List Access} {xs ys : List String}

theorem nothing (h : Clean as) : Draws n n 0 as [] where
  next := (UInt64.add_zero n).symm
  drawn := .refl []
  writes x hx := List.count_eq_zero.2 fun hmem => absurd (h _ hmem) (by simp [hx])
  names a ha hslot := absurd (h a ha) (by simp [hslot])

theorem append (h : Draws n m j as xs) (h' : Draws m m' k bs ys) :
    Draws n m' (j + k) (as ++ bs) (xs ++ ys) where
  next := by rw [h'.next, h.next, UInt64.add_assoc, UInt64.ofNat_add]
  drawn := by
    rw [drawn_add, ← h.next]
    exact h.drawn.append h'.drawn
  writes x hx := by rw [List.count_append, List.count_append, h.writes x hx, h'.writes x hx]
  names a ha hslot := (List.mem_append.1 ha).elim
    (fun ha => List.mem_append_left _ (h.names a ha hslot))
    (fun ha => List.mem_append_right _ (h'.names a ha hslot))

theorem perm (h : Draws n m k as xs) (hab : as.Perm bs) (hxy : xs.Perm ys) : Draws n m k bs ys where
  next := h.next
  drawn := hxy.symm.trans h.drawn
  writes x hx := by rw [← hab.count_eq, ← hxy.count_eq, h.writes x hx]
  names a ha hslot := hxy.mem_iff.1 (h.names a (hab.mem_iff.2 ha) hslot)

theorem swap (h : Draws n m j as xs) (h' : Draws m m' k bs ys) :
    Draws n m' (j + k) (bs ++ as) (ys ++ xs) :=
  (h.append h').perm List.perm_append_comm List.perm_append_comm

theorem after (hb : Clean bs) (h : Draws n m k as xs) : Draws n m k (bs ++ as) xs := by
  simpa using (nothing hb).append h

theorem before (hb : Clean bs) (h : Draws n m k as xs) : Draws n m k (as ++ bs) xs := by
  simpa using h.append (nothing hb)

end Draws

section Pieces

@[simp] theorem bodyAccesses_effectStmts (es : List Expr) :
    bodyAccesses (effectStmts es) = listAccesses es := by
  induction es with
  | nil => rfl
  | cons e es ih => exact congrArg (e.accesses ++ ·) ih

theorem bodySlots_cons (s : Stmt) (ss : List Stmt) : bodySlots (s :: ss) = s.slots ++ bodySlots ss := rfl

theorem bodySlots_singleton (s : Stmt) : bodySlots [s] = s.slots := List.append_nil _

theorem bodyAccesses_singleton (s : Stmt) : bodyAccesses [s] = s.accesses := List.append_nil _

@[simp] theorem bodySlots_append (ss ts : List Stmt) :
    bodySlots (ss ++ ts) = bodySlots ss ++ bodySlots ts := by
  induction ss with
  | nil => rfl
  | cons s ss ih => simp only [List.cons_append, bodySlots_cons, ih, List.append_assoc]

@[simp] theorem bodySlots_effectStmts (es : List Expr) : bodySlots (effectStmts es) = listSlots es := by
  induction es with
  | nil => rfl
  | cons e es ih => exact congrArg (e.slots ++ ·) ih

@[simp] theorem accesses_ofList (ss : List Stmt) : (Stmt.ofList ss).accesses = bodyAccesses ss := by
  rcases ofList_cases ss with ⟨s, rfl, h⟩ | h
  · rw [h, bodyAccesses_singleton]
  · exact congrArg Stmt.accesses h

@[simp] theorem slots_ofList (ss : List Stmt) : (Stmt.ofList ss).slots = bodySlots ss := by
  rcases ofList_cases ss with ⟨s, rfl, h⟩ | h
  · rw [h, bodySlots_singleton]
  · exact congrArg Stmt.slots h

theorem bodyAccesses_labelLast (label : String) (ss : List Stmt) :
    bodyAccesses (labelLast label ss) = bodyAccesses ss := by
  rcases ss.eq_nil_or_concat with rfl | ⟨init, t, rfl⟩
  · rfl
  · rw [List.concat_eq_append, labelLast_append, bodyAccesses_append, bodyAccesses_append]
    rfl

theorem bodySlots_labelLast (label : String) (ss : List Stmt) :
    bodySlots (labelLast label ss) = bodySlots ss := by
  rcases ss.eq_nil_or_concat with rfl | ⟨init, t, rfl⟩
  · rfl
  · rw [List.concat_eq_append, labelLast_append, bodySlots_append, bodySlots_append]
    rfl

theorem totalSize_initials (ds : List Declarator) : totalSize (initials ds) ≤ sizeOf ds := by
  induction ds with
  | nil => exact Nat.zero_le _
  | cons d ds ih =>
    obtain ⟨p, init⟩ := d
    cases init with
    | none => simp only [initials, List.cons.sizeOf_spec]; omega
    | some e =>
      simp only [initials, totalSize_cons, List.cons.sizeOf_spec, Declarator.mk.sizeOf_spec,
        Option.some.sizeOf_spec]
      omega

theorem listAccesses_initials {ds : List Declarator} (h : Clean (ds.flatMap Declarator.accesses)) :
    Clean (listAccesses (initials ds)) := by
  induction ds with
  | nil => exact fun _ => nofun
  | cons d ds ih =>
    obtain ⟨p, init⟩ := d
    obtain ⟨hd, hds⟩ := clean_append.1 h
    cases init with
    | none => exact ih hds
    | some e => exact clean_append.2 ⟨(clean_append.1 hd).1, ih hds⟩

theorem accesses_withInitials (ds : List Declarator) (es : List Expr) :
    ∀ a ∈ (withInitials ds es).flatMap Declarator.accesses,
      a ∈ listAccesses es ∨ a ∈ ds.flatMap Declarator.accesses := by
  induction ds generalizing es with
  | nil => exact fun _ => nofun
  | cons d ds ih =>
    obtain ⟨p, init⟩ := d
    intro a ha
    cases init with
    | none =>
      rcases List.mem_append.1 ha with ha | ha
      · exact .inr (List.mem_append_left _ ha)
      · exact (ih es a ha).imp_right (List.mem_append_right _)
    | some d =>
      cases es with
      | nil => cases ha
      | cons e es =>
        have ih := ih es a
        simp only [withInitials, List.flatMap_cons, Declarator.accesses, optionAccesses, listAccesses,
          List.mem_append] at ha ⊢
        grind

end Pieces

/-- What hoisting gives fills its slots before what is left reads them. -/
theorem Fills.draws {n m : SlotNumber} {k : Nat} {before left : List Expr} {as : List Access}
    (h : Fills n m k before left) (has : OnlyReads (drawn n k) as) :
    Draws n m k (listAccesses before ++ as) (listSlots before) where
  next := h.next
  drawn := by rw [h.slots]
  writes x hx := by
    rw [List.count_append, h.steps.count_write hx, has.count_write hx]
    rfl
  names a ha hslot := by
    rcases List.mem_append.1 ha with ha | ha
    · exact h.steps.name_mem ha hslot
    · obtain ⟨x, hx, rfl⟩ := has a ha hslot
      rwa [h.slots]

theorem Fills.effects_draws {n m : SlotNumber} {k : Nat} {es : List Expr} (h : Fills n m k es []) :
    Draws n m k (listAccesses es) (listSlots es) := by
  have hnone : OnlyReads (drawn n k) [] := nofun
  simpa using h.draws hnone

/-- A statement around an expression that is hoisted, with the parts that come after. -/
theorem Fills.head {n m m' : SlotNumber} {j k : Nat} {h : Hoisted} {t : Stmt} {as : List Access}
    {xs : List String} (hf : Fills n m j h.before [h.rest]) (hd : Draws m m' k as xs)
    (ha : t.accesses.Perm (h.rest.accesses ++ as)) (hs : t.slots = xs) :
    Draws n m' (j + k) (bodyAccesses (effectStmts h.before ++ [t]))
      (bodySlots (effectStmts h.before ++ [t])) := by
  refine ((hf.draws hf.left.left).append hd).perm ?_ (by simp [bodySlots, hs])
  simpa [bodyAccesses] using ha.symm.append_left (listAccesses h.before)

theorem Draws.kept {n : SlotNumber} {as : List Access} {xs : List String} (h : Clean as)
    (hmem : ∀ x ∈ xs, isSlotName x = true ∧ .write x ∈ as) : Draws n n 0 as xs := by
  have hnil : xs = [] := List.eq_nil_iff_forall_not_mem.2 fun x hx =>
    absurd (h _ (hmem x hx).2) (by simp [(hmem x hx).1])
  rw [hnil]
  exact .nothing h

section Single

variable {inAsync : Bool} {n m : SlotNumber} {e : Expr}

theorem Hoists.fills_expr {h : Hoisted} (hh : Hoists inAsync n (.expr e h) m)
    (he : Clean e.accesses) : ∃ k ≤ 2 * sizeOf e, Fills n m k h.before [h.rest] := by
  obtain ⟨k, hk, hf⟩ := hh.fills (clean_append.2 ⟨he, nofun⟩)
  exact ⟨k, Nat.le_trans hk (Nat.sub_le _ _), hf⟩

theorem Hoists.fills_effect {es : List Expr} (hh : Hoists inAsync n (.effects [e] es) m)
    (he : Clean e.accesses) : ∃ k ≤ 2 * sizeOf e, Fills n m k es [] := by
  obtain ⟨k, hk, hf⟩ := hh.fills (clean_append.2 ⟨he, nofun⟩)
  exact ⟨k, by simpa [Hoisting.slotBound] using hk, hf⟩

end Single

namespace Grouping

def source : Grouping → List Access
  | .stmt s _ => s.accesses
  | .body ss _ => bodyAccesses ss
  | .cases cs _ => caseAccesses cs
  | .declarators _ ds _ => ds.flatMap Declarator.accesses
  | .condition e _ => optionAccesses e
  | .init i _ _ => i.accesses

def result : Grouping → List Access
  | .stmt _ ss | .body _ ss | .declarators _ _ ss => bodyAccesses ss
  | .cases _ cs => caseAccesses cs
  | .condition _ d => optionAccesses d
  | .init _ before j => listAccesses before ++ j.accesses

def slots : Grouping → List String
  | .stmt _ ss | .body _ ss | .declarators _ _ ss => bodySlots ss
  | .cases _ cs => caseSlots cs
  | .condition _ d => optionSlots d
  | .init _ before j => listSlots before ++ j.slots

noncomputable def size : Grouping → Nat
  | .stmt s _ => sizeOf s
  | .body ss _ => sizeOf ss
  | .cases cs _ => sizeOf cs
  | .declarators _ ds _ => sizeOf ds
  | .condition e _ => sizeOf e
  | .init i _ _ => sizeOf i

end Grouping

/-- Lowering code that has no slots of its own draws slots from the next number on. -/
theorem Groups.draws {inAsync : Bool} {n m : SlotNumber} {g : Grouping}
    (h : Groups inAsync (Hoists inAsync) n g m) (hg : Clean g.source) :
    ∃ k ≤ 2 * g.size, Draws n m k g.result g.slots := by
  induction h with
  | @plain n s hs =>
    refine ⟨0, Nat.zero_le _, .kept (clean_append.2 ⟨hg, (by rintro _ ⟨⟩)⟩) ?_⟩
    exact mem_slots_append (mem_stmtSlots s) fun _ => (by rintro ⟨⟩)
  | @expr n m e es hh =>
    obtain ⟨k, hk, hf⟩ := hh.fills_effect hg
    refine ⟨k, by simp only [Grouping.size, Stmt.expr.sizeOf_spec]; omega, ?_⟩
    simpa [Grouping.result, Grouping.slots] using hf.effects_draws
  | @declare n m kind ds ss hh ih =>
    obtain ⟨k, hk, hd⟩ := ih hg
    simp only [Grouping.size, Stmt.declare.sizeOf_spec] at hk ⊢
    exact ⟨k, by omega, hd⟩
  | @ret n m e h hh =>
    obtain ⟨k, hk, hf⟩ := hh.fills_expr hg
    simp only [Grouping.size, Stmt.ret.sizeOf_spec, Option.some.sizeOf_spec]
    exact ⟨k + 0, by omega, hf.head (.nothing clean_nil) (by simp [Stmt.accesses, optionAccesses]) rfl⟩
  | @throw n m e h hh =>
    obtain ⟨k, hk, hf⟩ := hh.fills_expr hg
    simp only [Grouping.size, Stmt.throw.sizeOf_spec]
    exact ⟨k + 0, by omega, hf.head (.nothing clean_nil) (by simp [Stmt.accesses]) rfl⟩
  | @block n m body ss hh ih =>
    obtain ⟨k, hk, hd⟩ := ih hg
    simp only [Grouping.size, Stmt.block.sizeOf_spec] at hk ⊢
    refine ⟨k, by omega, ?_⟩
    simpa [Grouping.result, Grouping.slots, bodyAccesses, bodySlots, Stmt.accesses, Stmt.slots] using hd
  | @ifThen n k m test h yes y hh hy ih =>
    obtain ⟨htest, hyes⟩ := clean_append.1 hg
    obtain ⟨i, hi, hf⟩ := hh.fills_expr htest
    obtain ⟨j, hj, hd⟩ := ih hyes
    simp only [Grouping.size, Stmt.ifElse.sizeOf_spec] at hj ⊢
    exact ⟨i + j, by omega, hf.head hd (by simp [Stmt.accesses, Grouping.result])
      (by simp [Stmt.slots, Grouping.slots])⟩
  | @ifElse n k k' m test h yes no y o hh hy ho ih ih' =>
    obtain ⟨htest, hno⟩ := clean_append.1 hg
    obtain ⟨htest, hyes⟩ := clean_append.1 htest
    obtain ⟨i, hi, hf⟩ := hh.fills_expr htest
    obtain ⟨j, hj, hd⟩ := ih hyes
    obtain ⟨j', hj', hd'⟩ := ih' hno
    simp only [Grouping.size, Stmt.ifElse.sizeOf_spec, Option.some.sizeOf_spec] at hj hj' ⊢
    exact ⟨i + (j + j'), by omega, hf.head (hd.append hd') (by simp [Stmt.accesses, Grouping.result])
      (by simp [Stmt.slots, Grouping.slots])⟩
  | @whileDo n k m test t body b ht hb ih ih' =>
    obtain ⟨htest, hbody⟩ := clean_append.1 hg
    obtain ⟨i, hi, hd⟩ := ih htest
    obtain ⟨j, hj, hd'⟩ := ih' hbody
    simp only [Grouping.size, Stmt.whileDo.sizeOf_spec, Option.some.sizeOf_spec] at hi hj ⊢
    refine ⟨i + j, by omega, ?_⟩
    simpa [Grouping.result, Grouping.slots, bodyAccesses, bodySlots, Stmt.accesses, Stmt.slots,
      optionAccesses, optionSlots] using hd.append hd'
  | @doWhile n k m test t body b ht hb ih ih' =>
    obtain ⟨hbody, htest⟩ := clean_append.1 hg
    obtain ⟨i, hi, hd⟩ := ih htest
    obtain ⟨j, hj, hd'⟩ := ih' hbody
    simp only [Grouping.size, Stmt.doWhile.sizeOf_spec, Option.some.sizeOf_spec] at hi hj ⊢
    refine ⟨i + j, by omega, ?_⟩
    simpa [Grouping.result, Grouping.slots, bodyAccesses, bodySlots, Stmt.accesses, Stmt.slots,
      optionAccesses, optionSlots] using hd.swap hd'
  | @forLoop n k k' l m i j before test t update u body b hi ht hu hb ih₁ ih₂ ih₃ ih₄ =>
    obtain ⟨hg, hbody⟩ := clean_append.1 hg
    obtain ⟨hg, hupdate⟩ := clean_append.1 hg
    obtain ⟨hinit, htest⟩ := clean_append.1 hg
    obtain ⟨k₁, h₁, hd₁⟩ := ih₁ hinit
    obtain ⟨k₂, h₂, hd₂⟩ := ih₂ htest
    obtain ⟨k₃, h₃, hd₃⟩ := ih₃ hupdate
    obtain ⟨k₄, h₄, hd₄⟩ := ih₄ hbody
    simp only [Grouping.size, Stmt.forLoop.sizeOf_spec] at h₁ h₂ h₃ h₄ ⊢
    refine ⟨k₁ + k₂ + k₃ + k₄, by omega, ?_⟩
    simpa [Grouping.result, Grouping.slots, bodyAccesses, bodySlots, Stmt.accesses, Stmt.slots] using
      ((hd₁.append hd₂).append hd₃).append hd₄
  | @forIn n k m target subject h body b hh hb ih =>
    obtain ⟨hg, hbody⟩ := clean_append.1 hg
    obtain ⟨htarget, hsubject⟩ := clean_append.1 hg
    obtain ⟨i, hi, hf⟩ := hh.fills_expr hsubject
    obtain ⟨j, hj, hd⟩ := ih hbody
    simp only [Grouping.size, Stmt.forIn.sizeOf_spec] at hj ⊢
    refine ⟨i + j, by omega, hf.head (hd.after htarget) ?_ (by simp [Stmt.slots, Grouping.slots])⟩
    simpa [Stmt.accesses, Grouping.result] using
      List.perm_append_comm.append_right (bodyAccesses b)
  | @forOf n k m target subject h body b isAwait hh hb ih =>
    obtain ⟨hg, hbody⟩ := clean_append.1 hg
    obtain ⟨htarget, hsubject⟩ := clean_append.1 hg
    obtain ⟨i, hi, hf⟩ := hh.fills_expr hsubject
    obtain ⟨j, hj, hd⟩ := ih hbody
    simp only [Grouping.size, Stmt.forOf.sizeOf_spec] at hj ⊢
    refine ⟨i + j, by omega, hf.head (hd.after htarget) ?_ (by simp [Stmt.slots, Grouping.slots])⟩
    simpa [Stmt.accesses, Grouping.result] using
      List.perm_append_comm.append_right (bodyAccesses b)
  | @tryOnly n m block b hb ih =>
    obtain ⟨k, hk, hd⟩ := ih hg
    simp only [Grouping.size, Stmt.tryCatch.sizeOf_spec] at hk ⊢
    refine ⟨k, by omega, ?_⟩
    simpa [Grouping.result, Grouping.slots, bodyAccesses, bodySlots, Stmt.accesses, Stmt.slots] using hd
  | @tryFinally n k m block b finalizer f hf hb ih ih' =>
    obtain ⟨hblock, hfinalizer⟩ := clean_append.1 hg
    obtain ⟨i, hi, hd⟩ := ih hfinalizer
    obtain ⟨j, hj, hd'⟩ := ih' hblock
    simp only [Grouping.size, Stmt.tryCatch.sizeOf_spec, Option.some.sizeOf_spec] at hi hj ⊢
    refine ⟨i + j, by omega, ?_⟩
    simpa [Grouping.result, Grouping.slots, bodyAccesses, bodySlots, Stmt.accesses, Stmt.slots] using
      hd.swap hd'
  | @tryCatch n k m block b handler h param hh hb ih ih' =>
    obtain ⟨hg, hhandler⟩ := clean_append.1 hg
    obtain ⟨hblock, hparam⟩ := clean_append.1 hg
    obtain ⟨i, hi, hd⟩ := ih hhandler
    obtain ⟨j, hj, hd'⟩ := ih' hblock
    simp only [Grouping.size, Stmt.tryCatch.sizeOf_spec, Option.some.sizeOf_spec,
      Catch.mk.sizeOf_spec] at hi hj ⊢
    refine ⟨i + j, by omega, ?_⟩
    simpa [Grouping.result, Grouping.slots, bodyAccesses, bodySlots, Stmt.accesses, Stmt.slots] using
      (hd.after hparam).swap hd'
  | @tryCatchFinally n k k' m block b handler h finalizer f param hh hf hb ih ih' ih'' =>
    obtain ⟨hg, hfinalizer⟩ := clean_append.1 hg
    obtain ⟨hg, hhandler⟩ := clean_append.1 hg
    obtain ⟨hblock, hparam⟩ := clean_append.1 hg
    obtain ⟨i, hi, hd⟩ := ih hhandler
    obtain ⟨i', hi', hd'⟩ := ih' hfinalizer
    obtain ⟨j, hj, hd''⟩ := ih'' hblock
    simp only [Grouping.size, Stmt.tryCatch.sizeOf_spec, Option.some.sizeOf_spec,
      Catch.mk.sizeOf_spec] at hi hi' hj ⊢
    refine ⟨i + i' + j, by omega, ?_⟩
    simpa [Grouping.result, Grouping.slots, bodyAccesses, bodySlots, Stmt.accesses, Stmt.slots] using
      ((hd.after hparam).append hd').swap hd''
  | @switch n k m subject h cases cs hh hc ih =>
    obtain ⟨hsubject, hcases⟩ := clean_append.1 hg
    obtain ⟨i, hi, hf⟩ := hh.fills_expr hsubject
    obtain ⟨j, hj, hd⟩ := ih hcases
    simp only [Grouping.size, Stmt.switch.sizeOf_spec] at hj ⊢
    exact ⟨i + j, by omega, hf.head hd (by simp [Stmt.accesses, Grouping.result])
      (by simp [Stmt.slots, Grouping.slots])⟩
  | @labeled n m label s ss hh ih =>
    obtain ⟨k, hk, hd⟩ := ih hg
    simp only [Grouping.size, Stmt.labeled.sizeOf_spec] at hk ⊢
    refine ⟨k, by omega, ?_⟩
    rwa [Grouping.result, Grouping.slots, bodyAccesses_labelLast, bodySlots_labelLast]
  | nil | noCase | noDeclarator => exact ⟨0, Nat.zero_le _, .nothing clean_nil⟩
  | @cons n k m s ss first rest hs hss ih ih' =>
    obtain ⟨hs, hss⟩ := clean_append.1 hg
    obtain ⟨i, hi, hd⟩ := ih hs
    obtain ⟨j, hj, hd'⟩ := ih' hss
    simp only [Grouping.size, List.cons.sizeOf_spec] at hi hj ⊢
    refine ⟨i + j, by omega, ?_⟩
    simpa [Grouping.result, Grouping.slots] using hd.append hd'
  | @case n k m test body b cases cs hb hc ih ih' =>
    obtain ⟨hg, hcases⟩ := clean_append.1 hg
    obtain ⟨htest, hbody⟩ := clean_append.1 hg
    obtain ⟨i, hi, hd⟩ := ih hbody
    obtain ⟨j, hj, hd'⟩ := ih' hcases
    simp only [Grouping.size, List.cons.sizeOf_spec, Case.mk.sizeOf_spec] at hi hj ⊢
    exact ⟨i + j, by omega, (hd.after htest).append hd'⟩
  | @uninitialized n m kind p ds ss hh ih =>
    obtain ⟨hp, hds⟩ := clean_append.1 hg
    obtain ⟨k, hk, hd⟩ := ih hds
    simp only [Grouping.size, List.cons.sizeOf_spec] at hk ⊢
    refine ⟨k, by omega, ?_⟩
    simpa [Grouping.result, Grouping.slots, bodyAccesses, bodySlots, Stmt.accesses, Stmt.slots] using
      hd.after hp
  | @initialized n k m kind p e h ds ss hh hds ih =>
    obtain ⟨hd, hds⟩ := clean_append.1 hg
    obtain ⟨he, hp⟩ := clean_append.1 hd
    obtain ⟨i, hi, hf⟩ := hh.fills_expr he
    obtain ⟨j, hj, hd⟩ := ih hds
    simp only [Grouping.size, List.cons.sizeOf_spec, Declarator.mk.sizeOf_spec,
      Option.some.sizeOf_spec] at hj ⊢
    refine ⟨i + 0 + j, by omega, ?_⟩
    have hhead := hf.head (t := .declare kind [.mk p (some h.rest)]) (.nothing hp)
      (by simp [Stmt.accesses, Declarator.accesses, optionAccesses]) rfl
    simpa [Grouping.result, Grouping.slots, bodyAccesses, bodySlots] using hhead.append hd
  | @keptCondition n e => exact ⟨0, Nat.zero_le _, .kept hg (mem_optionSlots e)⟩
  | @condition n m e h hh =>
    obtain ⟨k, hk, hf⟩ := hh.fills_expr hg
    simp only [Grouping.size, Option.some.sizeOf_spec]
    exact ⟨k, by omega, hf.perform.effects_draws⟩
  | @keptInit n i => exact ⟨0, Nat.zero_le _, .kept hg (mem_initSlots i)⟩
  | @initDeclare n m kind ds before rest hh =>
    obtain ⟨k, hk, hf⟩ := hh.fills (listAccesses_initials hg)
    have hle := totalSize_initials ds
    simp only [Grouping.size, Hoisting.slotBound, ForInit.declare.sizeOf_spec] at hk ⊢
    refine ⟨k, by omega, ?_⟩
    have hrest : OnlyReads (drawn n k) ((withInitials ds rest).flatMap Declarator.accesses) :=
      hf.left.of_subset fun a ha => (accesses_withInitials ds rest a ha).imp_right (hg a)
    simpa [Grouping.result, Grouping.slots, ForInit.accesses, ForInit.slots, Hoisting.before] using
      hf.draws hrest
  | @initExpr n m e es hh =>
    obtain ⟨k, hk, hf⟩ := hh.fills_effect hg
    simp only [Grouping.size, ForInit.expr.sizeOf_spec]
    refine ⟨k, by omega, ?_⟩
    simpa [Grouping.result, Grouping.slots, ForInit.accesses, ForInit.slots] using hf.effects_draws

theorem Groups.of_clean {inAsync : Bool} {P Q : SlotNumber → Hoisting → SlotNumber → Prop}
    {n m : SlotNumber} {g : Grouping}
    (hPQ : ∀ n w m, P n w m → Clean (listAccesses w.source) → Q n w m)
    (h : Groups inAsync P n g m) (hg : Clean g.source) : Groups inAsync Q n g m := by
  have hone {e : Expr} (he : Clean e.accesses) : Clean (listAccesses [e]) :=
    clean_append.2 ⟨he, nofun⟩
  induction h with
  | plain hs => exact .plain hs
  | expr h => exact .expr (hPQ _ _ _ h (hone hg))
  | declare _ ih => exact .declare (ih hg)
  | ret h => exact .ret (hPQ _ _ _ h (hone hg))
  | throw h => exact .throw (hPQ _ _ _ h (hone hg))
  | block _ ih => exact .block (ih hg)
  | ifThen h _ ih =>
    obtain ⟨htest, hyes⟩ := clean_append.1 hg
    exact .ifThen (hPQ _ _ _ h (hone htest)) (ih hyes)
  | ifElse h _ _ ih ih' =>
    obtain ⟨hg, hno⟩ := clean_append.1 hg
    obtain ⟨htest, hyes⟩ := clean_append.1 hg
    exact .ifElse (hPQ _ _ _ h (hone htest)) (ih hyes) (ih' hno)
  | whileDo _ _ ih ih' =>
    obtain ⟨htest, hbody⟩ := clean_append.1 hg
    exact .whileDo (ih htest) (ih' hbody)
  | doWhile _ _ ih ih' =>
    obtain ⟨hbody, htest⟩ := clean_append.1 hg
    exact .doWhile (ih htest) (ih' hbody)
  | forLoop _ _ _ _ ih₁ ih₂ ih₃ ih₄ =>
    obtain ⟨hg, hbody⟩ := clean_append.1 hg
    obtain ⟨hg, hupdate⟩ := clean_append.1 hg
    obtain ⟨hinit, htest⟩ := clean_append.1 hg
    exact .forLoop (ih₁ hinit) (ih₂ htest) (ih₃ hupdate) (ih₄ hbody)
  | forIn h _ ih =>
    obtain ⟨hg, hbody⟩ := clean_append.1 hg
    exact .forIn (hPQ _ _ _ h (hone (clean_append.1 hg).2)) (ih hbody)
  | forOf h _ ih =>
    obtain ⟨hg, hbody⟩ := clean_append.1 hg
    exact .forOf (hPQ _ _ _ h (hone (clean_append.1 hg).2)) (ih hbody)
  | tryOnly _ ih => exact .tryOnly (ih hg)
  | tryFinally _ _ ih ih' =>
    obtain ⟨hblock, hfinalizer⟩ := clean_append.1 hg
    exact .tryFinally (ih hfinalizer) (ih' hblock)
  | tryCatch _ _ ih ih' =>
    obtain ⟨hg, hhandler⟩ := clean_append.1 hg
    exact .tryCatch (ih hhandler) (ih' (clean_append.1 hg).1)
  | tryCatchFinally _ _ _ ih ih' ih'' =>
    obtain ⟨hg, hfinalizer⟩ := clean_append.1 hg
    obtain ⟨hg, hhandler⟩ := clean_append.1 hg
    exact .tryCatchFinally (ih hhandler) (ih' hfinalizer) (ih'' (clean_append.1 hg).1)
  | switch h _ ih =>
    obtain ⟨hsubject, hcases⟩ := clean_append.1 hg
    exact .switch (hPQ _ _ _ h (hone hsubject)) (ih hcases)
  | labeled _ ih => exact .labeled (ih hg)
  | nil => exact .nil
  | cons _ _ ih ih' =>
    obtain ⟨hs, hss⟩ := clean_append.1 hg
    exact .cons (ih hs) (ih' hss)
  | noCase => exact .noCase
  | case _ _ ih ih' =>
    obtain ⟨hg, hcases⟩ := clean_append.1 hg
    exact .case (ih (clean_append.1 hg).2) (ih' hcases)
  | noDeclarator => exact .noDeclarator
  | uninitialized _ ih => exact .uninitialized (ih (clean_append.1 hg).2)
  | initialized h _ ih =>
    obtain ⟨hd, hds⟩ := clean_append.1 hg
    exact .initialized (hPQ _ _ _ h (hone (clean_append.1 hd).1)) (ih hds)
  | keptCondition => exact .keptCondition
  | condition h => exact .condition (hPQ _ _ _ h (hone hg))
  | keptInit => exact .keptInit
  | initDeclare h => exact .initDeclare (hPQ _ _ _ h (listAccesses_initials hg))
  | initExpr h => exact .initExpr (hPQ _ _ _ h (hone hg))

end Resumable
