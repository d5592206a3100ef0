import Resumable.Proofs.Lowering.Supported

/-!
Which expressions hoisting takes. Main statement: `Expr.hoist_admits`: those in which no suspend point
stands where evaluation may pass by, and no operand of a `yield` yields.
-/

set_option autoImplicit false

namespace Resumable

open Lower (Admits)

theorem storeSlot_admits (e : Expr) : (storeSlot e).Admits false true :=
  fun _ => ⟨fun _ => rfl, fun _ => ⟨⟨_, (run_storeSlot_ok ..).2 ⟨rfl, rfl⟩⟩, rfl⟩⟩

theorem spill_admits : (e : Expr) → e.spill.Admits false true
  | .spread e => (spill_admits e).map _
  | .null | .bool _ | .num _ | .str _ => .pure _
  | .ident name => by
    rw [Expr.spill]
    split
    · exact .pure _
    · exact storeSlot_admits _
    · nofun
  | .this | .array _ | .object _ | .function _ _ | .arrow _ | .lambda _ _ _ | .unary _ _
  | .binary _ _ _ | .logical _ _ _ | .update _ _ _ | .assign _ _ _ | .cond _ _ _ | .call _ _
  | .new _ _ | .dot _ _ | .index _ _ | .seq _ | .yield _ | .yieldStar _ | .await _ | .typeof _
  | .void _ => storeSlot_admits _

theorem spillTarget_admits (e : Expr) : e.spillTarget.Admits false true := by
  cases e with
  | dot t name => exact (spill_admits t).map _
  | index t k => exact (spill_admits t).bind fun _ => (spill_admits k).map _
  | _ => exact .pure _

theorem settle_admits (h : Hoisted) (later : Bool) : (h.settle later).Admits false true := by
  rw [Hoisted.settle]
  split
  · exact (spill_admits _).map _
  · exact .pure _

section Hoisting

variable {inAsync : Bool}

/-- An expression that does not suspend is taken as it is; the others are left to the case at
hand. -/
theorem hoist_admits_of {e : Expr}
    (h : e.hasSuspend inAsync = true → (e.hoist inAsync).Admits false (e.isHoistable inAsync)) :
    (e.hoist inAsync).Admits false (e.isHoistable inAsync) := by
  cases hs : e.hasSuspend inAsync with
  | false =>
    have hp : e.hoist inAsync = pure ⟨[], e⟩ := by
      rw [Expr.hoist.eq_def]
      simp [hs, Hoisted.plain]
    rw [hp, isHoistable_of_plain hs]
    exact .pure _
  | true => exact h hs

theorem isHoistable_one {e d : Expr} (hr : d.isRegular inAsync = e.isRegular inAsync)
    (hs : d.suspends false = e.suspends false) : d.isHoistable inAsync = e.isHoistable inAsync := by
  rw [Expr.isHoistable, Expr.isHoistable, hr, hs]

theorem isHoistable_two {a b c d : Bool} : ((a && b) && !(c || d)) = ((a && !c) && (b && !d)) := by
  rw [Bool.not_or]
  ac_rfl

mutual

theorem Expr.hoist_admits : (e : Expr) → (e.hoist inAsync).Admits false (e.isHoistable inAsync)
  | .null | .bool _ | .num _ | .str _ | .ident _ | .this | .function _ _ | .arrow _
  | .lambda _ _ _ => hoist_admits_of fun hs => by cases hs
  | .yield none | .yieldStar none => hoist_admits_of fun hs => by
    rw [Expr.hoist, hs]
    exact storeSlot_admits _
  | .yield (some e) => hoist_admits_of fun hs => by
    rw [Expr.hoist, hs]
    refine (((e.hoist_admits.bind fun _ => (storeSlot_admits _).map _).guard _ _ _)).congr rfl ?_
    simp only [Expr.isHoistable, Expr.isRegular, Expr.suspends, List.any_append, List.any_cons,
      List.any_nil, Expr.wrapsYield, Bool.or_false, Bool.and_true, Bool.not_or, Expr.yields]
    ac_rfl
  | .yieldStar (some e) => hoist_admits_of fun hs => by
    rw [Expr.hoist, hs]
    refine (((e.hoist_admits.bind fun _ => (storeSlot_admits _).map _).guard _ _ _)).congr rfl ?_
    simp only [Expr.isHoistable, Expr.isRegular, Expr.suspends, List.any_append, List.any_cons,
      List.any_nil, Expr.wrapsYield, Bool.or_false, Bool.and_true, Bool.not_or, Expr.yields]
    ac_rfl
  | .await e => hoist_admits_of fun hs => by
    rw [Expr.hoist, hs]
    refine (Admits.bind (q := true) e.hoist_admits fun h => ?_).congr rfl
      ((isHoistable_one (e := e) (d := .await e) rfl (List.append_nil _)).trans
        (Bool.and_true _).symm)
    split
    · exact (storeSlot_admits _).map _
    · exact .pure _
  | .unary _ e | .typeof e | .void e | .spread e | .dot e _ => hoist_admits_of fun hs => by
    rw [Expr.hoist, hs]
    exact (e.hoist_admits.map _).congr rfl (isHoistable_one rfl rfl)
  | .binary _ l r | .index l r => hoist_admits_of fun hs => by
    rw [Expr.hoist, hs]
    refine (l.hoist_admits.bind fun _ => (settle_admits _ _).bind fun _ =>
      r.hoist_admits.map _).congr rfl ?_
    simp only [Expr.isHoistable, Expr.isRegular, Expr.suspends, List.any_append, isHoistable_two,
      Bool.true_and]
  | .logical _ l r => hoist_admits_of fun hs => by
    rw [Expr.hoist, hs]
    refine ((l.hoist_admits.map _).guard _ _ _).congr rfl ?_
    cases hr : r.hasSuspend inAsync with
    | true => simp [Expr.isHoistable, Expr.isRegular, hr]
    | false => simp [Expr.isHoistable, Expr.isRegular, Expr.suspends, hr, yields_of_plain hr]
  | .cond t y n => hoist_admits_of fun hs => by
    rw [Expr.hoist, hs]
    refine ((t.hoist_admits.map _).guard _ _ _).congr rfl ?_
    cases hr : y.hasSuspend inAsync || n.hasSuspend inAsync with
    | true => simp [Expr.isHoistable, Expr.isRegular, hr]
    | false =>
      obtain ⟨hy, hn⟩ := Bool.or_eq_false_iff.1 hr
      simp [Expr.isHoistable, Expr.isRegular, Expr.suspends, hy, hn, yields_of_plain hy,
        yields_of_plain hn]
  | .update _ _ e => hoist_admits_of fun hs => by
    rw [Expr.hoist, hs]
    refine (Admits.refuse _).congr rfl ?_
    have he : e.hasSuspend inAsync = true := hs
    simp [Expr.isHoistable, Expr.isRegular, he]
  | .assign op target value => hoist_admits_of fun hs => by
    rw [Expr.hoist, hs]
    have hparts : (Expr.assign op target value).isHoistable inAsync =
        (!target.hasSuspend inAsync && value.isHoistable inAsync) := by
      cases ht : target.hasSuspend inAsync with
      | true => simp [Expr.isHoistable, Expr.isRegular, ht]
      | false => simp [Expr.isHoistable, Expr.isRegular, Expr.suspends, ht, yields_of_plain ht]
    rw [hparts]
    refine (Admits.guard (p := value.isHoistable inAsync) ?_ _ _ _).congr rfl rfl
    refine ((spillTarget_admits _).bind fun _ => ?_).congr rfl (Bool.true_and _).symm
    split
    · exact value.hoist_admits.map _
    · exact ((spill_admits _).bind fun _ => value.hoist_admits.map _).congr rfl
        (Bool.true_and _).symm
  | .call f args => hoist_admits_of fun hs => by
    rcases f.member_cases with ⟨t, name, rfl⟩ | ⟨t, key, rfl⟩ | hf
    · rw [Expr.hoist, hs]
      refine (t.hoist_admits.bind fun _ => (settle_admits _ _).bind fun _ =>
        (hoistList_admits args).map _).congr rfl ?_
      simp only [Expr.isHoistable, areHoistable, Expr.isRegular, Expr.suspends, List.any_append,
        isHoistable_two, Bool.true_and]
    · rw [Expr.hoist, hs]
      refine (t.hoist_admits.bind fun _ => (settle_admits _ _).bind fun _ =>
        key.hoist_admits.bind fun _ => (settle_admits _ _).bind fun _ =>
        (hoistList_admits args).map _).congr rfl ?_
      simp only [Expr.isHoistable, areHoistable, Expr.isRegular, Expr.suspends, List.any_append,
        isHoistable_two, Bool.true_and]
      simp only [Bool.and_assoc]
    · rw [hoist_call f args hf inAsync hs]
      refine (f.hoist_admits.bind fun _ => (settle_admits _ _).bind fun _ =>
        (hoistList_admits args).map _).congr rfl ?_
      simp only [Expr.isHoistable, areHoistable, Expr.isRegular, Expr.suspends, List.any_append,
        isHoistable_two, Bool.true_and]
  | .new f args => hoist_admits_of fun hs => by
    rw [Expr.hoist, hs]
    refine (f.hoist_admits.bind fun _ => (settle_admits _ _).bind fun _ =>
      (hoistList_admits args).map _).congr rfl ?_
    simp only [Expr.isHoistable, areHoistable, Expr.isRegular, Expr.suspends, List.any_append,
      isHoistable_two, Bool.true_and]
  | .array items => hoist_admits_of fun hs => by
    rw [Expr.hoist, hs]
    exact (hoistItems_admits items).map _
  | .object ps => hoist_admits_of fun hs => by
    rw [Expr.hoist, hs]
    exact (hoistProperties_admits ps).map _
  | .seq items => hoist_admits_of fun hs => by
    rw [Expr.hoist, hs]
    exact hoistSeq_admits items
termination_by e => sizeOf e
decreasing_by all_goals (subst_vars; simp +arith)

theorem hoistList_admits : (es : List Expr) →
    (hoistList inAsync es).Admits false (areHoistable inAsync es)
  | [] => .pure _
  | e :: es => by
    rw [hoistList, areHoistable_cons]
    exact (e.hoist_admits.bind fun _ => (settle_admits _ _).bind fun _ =>
      (hoistList_admits es).map _).congr rfl (by rw [Bool.true_and])
termination_by es => sizeOf es
decreasing_by all_goals simp +arith

theorem hoistItems_admits : (items : List (Option Expr)) →
    (hoistItems inAsync items).Admits false (itemsAreHoistable inAsync items)
  | [] => .pure _
  | none :: items => by
    rw [hoistItems]
    exact (hoistItems_admits items).map _
  | some e :: items => by
    rw [hoistItems]
    refine (e.hoist_admits.bind fun _ => (settle_admits _ _).bind fun _ =>
      (hoistItems_admits items).map _).congr rfl ?_
    simp only [itemsAreHoistable, Expr.isHoistable, itemsAreRegular, itemsSuspends, List.any_append,
      isHoistable_two, Bool.true_and]
termination_by items => sizeOf items
decreasing_by all_goals simp +arith

theorem hoistProperties_admits : (ps : List Property) →
    (hoistProperties inAsync ps).Admits false (propertiesAreHoistable inAsync ps)
  | [] => .pure _
  | .mk (.computed key) value :: ps => by
    rw [hoistProperties]
    refine (key.hoist_admits.bind fun _ => (settle_admits _ _).bind fun _ =>
      value.hoist_admits.bind fun _ => (settle_admits _ _).bind fun _ =>
      (hoistProperties_admits ps).map _).congr rfl ?_
    simp only [propertiesAreHoistable, Expr.isHoistable, propertiesAreRegular, propertiesSuspends,
      List.any_append, isHoistable_two, Bool.true_and]
    simp only [Bool.and_assoc]
  | .mk (.ident name) value :: ps | .mk (.str name) value :: ps | .mk (.num name) value :: ps => by
    simp only [hoistProperties]
    refine (value.hoist_admits.bind fun _ => (settle_admits _ _).bind fun _ =>
      (hoistProperties_admits ps).map _).congr rfl ?_
    simp only [propertiesAreHoistable, Expr.isHoistable, propertiesAreRegular, propertiesSuspends,
      List.any_append, isHoistable_two, Bool.true_and]
termination_by ps => sizeOf ps
decreasing_by all_goals simp +arith

theorem hoistEffects_admits : (es : List Expr) →
    (hoistEffects inAsync es).Admits false (areHoistable inAsync es)
  | [] => .pure _
  | e :: es => by
    rw [areHoistable_cons]
    rcases e.seq_cases with ⟨inner, rfl⟩ | he
    · rw [hoistEffects]
      exact (hoistEffects_admits inner).bind fun _ => (hoistEffects_admits es).map _
    · rw [hoistEffects_cons inAsync e es he]
      refine Admits.bind (c := false) (d := false) ?_ fun _ => (hoistEffects_admits es).map _
      rw [Expr.hoistOne]
      split
      · rename_i hsimple
        rw [isHoistable_of_isSimpleEffect hsimple]
        exact .pure _
      · exact (e.hoist_admits.map _).congr rfl rfl
termination_by es => sizeOf es
decreasing_by all_goals (subst_vars; simp +arith)

theorem hoistSeq_admits : (items : List Expr) →
    (hoistSeq inAsync items).Admits false (areHoistable inAsync items)
  | [] => .pure _
  | [e] => by
    rw [hoistSeq, areHoistable_cons]
    exact e.hoist_admits.congr rfl (Bool.and_true _)
  | e :: d :: es => by
    have hrest (first : List Expr) :
        (if listHasSuspend inAsync (d :: es) then
          (do return (← hoistSeq inAsync (d :: es)).after first)
        else return ⟨first, .ofItems (d :: es)⟩ : Lower Hoisted).Admits false
          (areHoistable inAsync (d :: es)) := by
      split
      · exact (hoistSeq_admits (d :: es)).map _
      · rename_i hs
        rw [areHoistable_of_plain (Bool.not_eq_true _ ▸ hs)]
        exact .pure _
    rw [areHoistable_cons]
    rcases e.seq_cases with ⟨inner, rfl⟩ | he
    · simp only [hoistSeq]
      exact (hoistEffects_admits inner).bind hrest
    · rw [hoistSeq_cons inAsync e d es he]
      refine Admits.bind (c := false) (d := false) ?_ hrest
      rw [Expr.hoistOne]
      split
      · rename_i hsimple
        rw [isHoistable_of_isSimpleEffect hsimple]
        exact .pure _
      · exact (e.hoist_admits.map _).congr rfl rfl
termination_by items => sizeOf items
decreasing_by all_goals (subst_vars; simp +arith)

end

end Hoisting

end Resumable
