import Resumable.Proofs.Lowering.Blindness
import Resumable.Proofs.Lowering.Fresh
import Resumable.Proofs.Lowering.Places

/-!
What hoisting means for operands. `Hoisting.Means` says that effects do the first stages and what is left
does the second ones; an operand before one that suspends waits in its place with its value. Main
statements: `argument_lowers`, `operand_lowers`: one more operand; `composite_means`: the expression that
takes them.
-/

set_option autoImplicit false

namespace Resumable

namespace Hoisting

/-- Whether slots are at hand for hoisting, none of which the code itself spells. -/
structure Served (p : Private) (w : Hoisting) : Prop where
  clean : ∀ x ∈ listUses w.source, isSlotName x = false
  names : ∀ x ∈ listSlots w.before, x ∈ p.names
  nodup : (listSlots w.before).Nodup

/-- What hoisting keeps: its effects do the first stages, and what it leaves does the second ones. -/
def Means (p : Private) (host : Host) (inAsync : Bool) : Hoisting → Prop
  | .expr e h =>
    (e.isOrderly inAsync = true → ∀ hint : Option String,
      (hint.isSome = true → e.mayTakeName inAsync = true) →
      p.Lowers host (e.stage inAsync (answering host) p.scope hint) h.before
        (h.rest.eval (answering host) p.scope hint)) ∧
    ∀ d, e = .spread d → d.isOrderly inAsync = true → ∃ r, h.rest = .spread r ∧
      p.Lowers host (d.stage inAsync (answering host) p.scope none) h.before
        (r.eval (answering host) p.scope none)
  | .operands es before rest =>
    (∀ t t', p.Tracks t t' → t.Suits inAsync es →
      p.Lowers host (stageOperands inAsync (answering host) p.scope t es) before
        (t'.run (answering host) p.scope rest)) ∧
    (AreArguments inAsync es →
      p.Lowers host (stageEach inAsync (answering host) p.scope es) before
        (evalEach (answering host) p.scope rest))
  | .effects es before => areOrderly inAsync es = true →
    p.Settles host (stageEffects inAsync (answering host) p.scope es) before fun _ _ => True
  | .items es h => areOrderly inAsync es = true →
    p.Lowers host (stageSeq inAsync (answering host) p.scope es) h.before
      (h.rest.eval (answering host) p.scope none)

end Hoisting

section Operands

variable {p : Private} {host : Host} {inAsync : Bool} {n k k' m : SlotNumber} {e : Expr}
  {es before rest : List Expr} {h s : Hoisted}

theorem mayWait_look (hh : Hoists inAsync n (.expr e h) k) (hwait : e.mayWait inAsync = true) :
    h.rest.look ≠ .anonymous ∧ h.rest.look ≠ .spread := by
  simp only [Expr.mayWait, Bool.and_eq_true, bne_iff_ne] at hwait
  obtain ⟨x, -, hrest⟩ | hlook := hh.rest_look
  · rw [hrest]
    exact ⟨nofun, nofun⟩
  · rw [hlook]
    exact hwait

theorem operand_settles (hh : Hoists inAsync n (.expr e h) k)
    (hsettle : (h.settle true).run k = .ok (s, k')) (hwait : e.mayWait inAsync = true)
    (hclean : ∀ x ∈ e.uses, isSlotName x = false) (hnames : ∀ x ∈ listSlots s.before, x ∈ p.names)
    {x : RunOn Dialogue (RunOn Dialogue Value)} {hint : Option String}
    (hx : p.Lowers host x h.before (h.rest.eval (answering host) p.scope hint)) :
    (p.Settles host (whole x) s.before fun v t => p.Holds t s.rest v) ∧ s.rest.isInert = true ∧
      ∀ x ∈ s.rest.uses, x ∈ listSlots s.before := by
  obtain ⟨hanonymous, hspread⟩ := mayWait_look hh hwait
  obtain ⟨j, -, hf⟩ := hh.fills (clean_of_uses hclean)
  obtain ⟨i, -, hfs⟩ := hf.settle hsettle
  have hinert : s.rest.isInert = true :=
    (Hoists.operand_look hsettle fun _ => hspread).resolve_right fun hs => nomatch hs.1
  refine ⟨?_, hinert, hfs.inert_uses hinert⟩
  simp only [Hoisted.settle, if_true, run_bind_ok, run_pure_ok] at hsettle
  obtain ⟨t, i, ht, rfl, rfl⟩ := hsettle
  have hnames : ∀ y ∈ listSlots h.before ++ listSlots t.before, y ∈ p.names := by
    rwa [← listSlots_append]
  refine hx.spill hanonymous hspread ht (fun y hy => hnames y (List.mem_append_right _ hy)) ?_
  exact fun hi y hy => hnames y (List.mem_append_left _ (hf.inert_uses hi y hy))

theorem inner_of_ne {e : Expr} (h : e.look ≠ .spread) : e.inner = e := by
  cases e with
  | spread => exact absurd rfl h
  | _ => rfl

theorem evalArgument_of_look {σ : Type} [HasWorld σ] {host : HostOn σ} {scope : ScopeId} {e : Expr}
    (h : e.look ≠ .spread) :
    evalArgument host scope e = do return [← e.eval host scope none] :=
  evalArgument_of_ne fun _ hd => h (hd ▸ rfl)

theorem look_of_inert (hi : e.isInert = true) : e.look ≠ .spread := by
  cases e with
  | spread => cases hi
  | function | arrow | lambda => cases hi
  | _ => nofun

variable (hb : p.Blind host) (hh : Hoists inAsync n (.expr e h) k)
  (hsettle : (h.settle (listHasSuspend inAsync es)).run k = .ok (s, k'))
  (hrest : Hoists inAsync k' (.operands es before rest) m)
  (hserved : (Hoisting.operands (e :: es) (s.before ++ before) (s.rest :: rest)).Served p)
  (ih : (Hoisting.expr e h).Means p host inAsync)
  (ih' : (Hoisting.operands es before rest).Means p host inAsync)

include hb hh hsettle hrest hserved ih ih'

/-- An argument and those after it. -/
theorem argument_lowers (hargs : AreArguments inAsync (e :: es)) :
    p.Lowers host (stageEach inAsync (answering host) p.scope (e :: es)) (s.before ++ before)
      (evalEach (answering host) p.scope (s.rest :: rest)) := by
  obtain ⟨harg, hargs⟩ := hargs
  have hclean (x : String) (hx : x ∈ e.uses) : isSlotName x = false :=
    hserved.clean x (List.mem_append_left _ hx)
  cases hl : listHasSuspend inAsync es with
  | true =>
    rw [hl] at harg hsettle
    obtain ⟨d, -, -, hlater⟩ | ⟨horderly, hlook, -, hwait⟩ := harg
    · cases hlater
    · have hnames := hserved.names
      have hnodup := hserved.nodup
      simp only [Hoisting.before, listSlots_append, List.mem_append, List.nodup_append] at hnames hnodup
      obtain ⟨hsettles, hinert, huses⟩ := operand_settles (p := p) hh hsettle (hwait rfl) hclean
        (fun x hx => hnames x (.inl hx)) (ih.1 horderly none (by rintro ⟨⟩))
      have hboth := hsettles.bind_lowers none huses
        (fun y hy hy' => hnodup.2.2 y hy y hy' rfl) fun v =>
          (ih'.2 hargs).wrap (f := fun z => do return [v] :: (← z)) (g := fun z => do return [v] :: (← z))
            fun _ _ _ _ hz => hz.bind fun _ => .ofFollows (Private.Unseen.pure _).follows
      have hplace : evalArgument (answering host) p.scope s.rest = _ :=
        evalArgument_of_look (look_of_inert hinert)
      have hexpand (v : Value) : e.expand (answering host) v = pure [v] := by
        cases e with
        | spread => exact absurd rfl hlook
        | _ => rfl
      rw [stageEach, inner_of_ne hlook, hl, evalEach, hplace]
      simpa [settleStage, hexpand, whole] using hboth
  | false =>
    rw [hl] at harg hsettle
    obtain ⟨rfl, rfl⟩ := (run_settle_false ..).1 hsettle
    obtain ⟨rfl, rfl⟩ := hrest.operands_plain hl
    have hes (x : String) (hx : x ∈ listUses rest) : isSlotName x = false :=
      hserved.clean x (List.mem_append_right _ hx)
    -- the last argument that may suspend, and whatever it stands for
    have hlast {d r : Expr} (hd : e.inner = d) (hr : evalArgument (answering host) p.scope h.rest =
        r.eval (answering host) p.scope none >>= e.expand (answering host))
        (hx : p.Lowers host (d.stage inAsync (answering host) p.scope none) h.before
          (r.eval (answering host) p.scope none)) :
        p.Lowers host (stageEach inAsync (answering host) p.scope (e :: rest)) (h.before ++ [])
          (evalEach (answering host) p.scope (h.rest :: rest)) := by
      have hboth := hx.bind (f := fun v => do
          let vs ← e.expand (answering host) v
          return vs :: (← evalEach (answering host) p.scope rest)) fun v =>
        (hb.expand e v).bind fun vs => (hb.evalEach hes p.scope).bind fun vss =>
          (Private.Unseen.pure _).follows
      rw [stageEach, hd, hl, stageEach_plain hl, evalEach, hr, List.append_nil]
      simpa [settleStage] using hboth
    obtain ⟨d, rfl, horderly, -⟩ | ⟨horderly, hlook, htail, -⟩ := harg
    · obtain ⟨r, hr, hx⟩ := ih.2 d rfl horderly
      refine hlast rfl ?_ hx
      rw [hr]
      rfl
    · have hrest : h.rest.look ≠ .spread := by
        obtain ⟨x, -, hx⟩ | hx := hh.rest_look
        · rw [hx]
          rintro ⟨⟩
        · rwa [hx]
      refine hlast (inner_of_ne hlook) ?_ (ih.1 horderly none (by rintro ⟨⟩))
      rw [evalArgument_of_look hrest]
      cases e with
      | spread => exact absurd rfl hlook
      | _ => rfl

/-- An operand and those after it. -/
theorem operand_lowers {t t' : Taking Dialogue} (ht : p.Tracks t t')
    (hsuits : t.Suits inAsync (e :: es)) :
    p.Lowers host (stageOperands inAsync (answering host) p.scope t (e :: es)) (s.before ++ before)
      (t'.run (answering host) p.scope (s.rest :: rest)) := by
  cases ht with
  | done => cases hsuits
  | args hk =>
    have hargs := argument_lowers hb hh hsettle hrest hserved ih ih' hsuits
    rw [stageOperands, Taking.run]
    exact hargs.wrap hk
  | @value hint k₁ k₂ hk =>
    obtain ⟨horderly, hname, hwait, hsuits⟩ := hsuits
    have hclean (x : String) (hx : x ∈ e.uses) : isSlotName x = false :=
      hserved.clean x (List.mem_append_left _ hx)
    cases hl : listHasSuspend inAsync es with
    | true =>
      rw [hl] at hsettle
      have hnames := hserved.names
      have hnodup := hserved.nodup
      simp only [Hoisting.before, listSlots_append, List.mem_append, List.nodup_append] at hnames hnodup
      obtain ⟨hsettles, -, huses⟩ := operand_settles (p := p) hh hsettle (hwait hl) hclean
        (fun x hx => hnames x (.inl hx)) (ih.1 horderly hint hname)
      have hboth := hsettles.bind_lowers hint huses
        (fun y hy hy' => hnodup.2.2 y hy y hy' rfl) fun v => ih'.1 _ _ (hk v) (hsuits v)
      simpa [stageOperands, hl, whole, Taking.run] using hboth
    | false =>
      rw [hl] at hsettle
      obtain ⟨rfl, rfl⟩ := (run_settle_false ..).1 hsettle
      obtain ⟨rfl, rfl⟩ := hrest.operands_plain hl
      have hes (x : String) (hx : x ∈ listUses rest) : isSlotName x = false :=
        hserved.clean x (List.mem_append_right _ hx)
      have hboth := (ih.1 horderly hint hname).bind fun v => hb.run p.scope (hk v) hes
      simpa [stageOperands, hl, Taking.run] using hboth

end Operands

section Expressions

variable {p : Private} {host : Host} {inAsync : Bool} {n k k' m : SlotNumber} {e : Expr}
  {before rest : List Expr} {h : Hoisted}

theorem Private.Lowers.congr {α : Type} {x : RunOn Dialogue (RunOn Dialogue α)}
    {y y' : RunOn Dialogue α} (h : p.Lowers host x before y)
    (hy : ∀ u : Dialogue, p.Open u.world.scopes → y' u = y u) : p.Lowers host x before y' := by
  intro s s' hs
  refine (h s s' hs).mono fun z t' _ _ hz u u' hu hsame => ?_
  rw [hy u' hu.world.scopes.right]
  exact hz u u' hu hsame

/-- A slot is bound, so that `typeof` reads it as any other expression. -/
theorem eval_typeof_slot {host : HostOn Dialogue} {u : Dialogue} (hu : p.Open u.world.scopes)
    {x : String} (hx : x ∈ p.names) (hint : Option String) :
    (Expr.typeof (.ident x)).eval host p.scope hint u = (do
      let v ← (Expr.ident x).eval host p.scope none
      return .ofString ((← Run.heap).typeof v) : RunOn Dialogue Value) u := by
  have hhas : Run.read (·.scopes.has p.scope x) u = .done true u :=
    congrArg (Outcome.done · u) (hu.has hx)
  exact bind_eq_of_done hhas

theorem answering_await (x : RunOn Dialogue Value) : (answering host).suspend .await x =
    x >>= ((answering host).suspend .await <| pure ·) := by
  simp [answering]

theorem composite_fits (hs : e.hasSuspend inAsync = true)
    (hh : Hoists inAsync n (.operands e.operands before rest) m)
    (horderly : e.isOrderly inAsync = true) :
    e.Fits rest ∨ ∃ d, e = .typeof d ∧ ∃ x ∈ listSlots before, rest = [.ident x] := by
  cases e with
  | typeof d =>
    obtain ⟨-, hname⟩ := Bool.and_eq_true_iff.1 horderly
    have hd : d.hasSuspend inAsync = true := hs
    rw [hd] at hname
    cases hh with
    | @operand _ k k' _ _ _ before rest h s hh hsettle hrest =>
      cases hrest
      obtain ⟨rfl, -⟩ := (run_settle_false ..).1 hsettle
      rw [List.append_nil]
      obtain ⟨x, hx, hr⟩ | hlook := hh.rest_look
      · exact .inr ⟨d, rfl, x, hx, by rw [hr]⟩
      · refine .inl ?_
        show h.rest.look.isName = false
        rw [hlook]
        simpa using hname
  | call f args =>
    refine .inl ?_
    rcases f.member_cases with ⟨t, name, rfl⟩ | ⟨t, key, rfl⟩ | hf
    · trivial
    · trivial
    · rw [operands_call f args hf] at hh
      obtain ⟨-, -, hwait, hmember⟩ := isOrderly_call hf horderly
      cases hh with
      | @operand _ k k' _ _ _ before rest h s hh hsettle hrest =>
        have hplain : s.rest.isMember = false := by
          cases hl : listHasSuspend inAsync args with
          | true =>
            have hspread := (mayWait_look hh (hwait hl)).2
            rw [hl] at hsettle
            have hinert := (Hoists.operand_look hsettle fun _ => hspread).resolve_right (by simp)
            generalize s.rest = r at hinert
            cases r <;> first | rfl | cases hinert
          | false =>
            rw [hl] at hsettle
            obtain ⟨rfl, -⟩ := (run_settle_false ..).1 hsettle
            obtain ⟨x, -, hr⟩ | hlook := hh.rest_look
            · rw [hr]
              rfl
            · have hne := hlook ▸ hmember hl
              generalize h.rest = r at hne
              cases r with
              | dot | index => exact absurd rfl hne
              | _ => rfl
        cases f with
        | dot | index => cases hf
        | _ => exact hplain
  | _ => exact .inl trivial

theorem composite_means (hb : p.Blind host) (hs : e.hasSuspend inAsync = true)
    (hc : e.isComposite inAsync = true) (hh : Hoists inAsync n (.operands e.operands before rest) m)
    (hserved : (Hoisting.expr e ⟨before, e.withOperands rest⟩).Served p)
    (ih : (Hoisting.operands e.operands before rest).Means p host inAsync) :
    (Hoisting.expr e ⟨before, e.withOperands rest⟩).Means p host inAsync := by
  have hl : rest.length = e.operands.length := hh.sound.1
  have hclean (x : String) (hx : x ∈ e.uses) : isSlotName x = false :=
    hserved.clean x (List.mem_append_left _ hx)
  refine ⟨fun horderly hint _ => ?_, ?_⟩
  · have hspread : e.look ≠ .spread := by
      cases e with
      | spread d =>
        have hd : d.hasSuspend inAsync = true := hs
        simp [Expr.isOrderly, hd] at horderly
      | function name f => cases hs
      | _ => rintro ⟨⟩
    have ht := takes_of_composite hc hspread
    have hawait (d : Expr) (hd : e = .await d) : inAsync = false := by
      subst hd
      simpa [Expr.isComposite] using hc
    rw [stage_operands answering_await hs ht hawait]
    have hrun := ih.1 _ _ (hb.taking p.scope hclean e.callee (e.withOperands rest).callee)
      (taking_suits ht horderly e.callee)
    obtain hfits | ⟨d, rfl, x, hx, rfl⟩ := composite_fits hs hh horderly
    · rw [eval_withOperands answering_await ht hl hfits]
      exact hrun
    · refine hrun.congr fun u hu => ?_
      exact eval_typeof_slot hu (hserved.names x hx) hint
  · rintro d rfl horderly
    obtain ⟨r, rfl⟩ := List.length_eq_one_iff.1 hl
    refine ⟨r, rfl, ?_⟩
    have hvalue := ih.1 (.value none fun v => .done (pure v)) (.value none fun v => .done (pure v))
      (.value fun v => .done (Private.Unseen.pure v).follows)
      ⟨horderly, (by rintro ⟨⟩), (by rintro ⟨⟩), fun _ => rfl⟩
    simpa [Expr.operands, stageOperands, Taking.run] using hvalue

end Expressions

end Resumable
