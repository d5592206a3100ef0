import Resumable.Native
import Resumable.Realm
import Resumable.Proofs.Promises.Invariants

/-!
What a write to one property makes of the others. The elements of an array and the fields of the object
stay apart if no field is named like an element, which inserts and writes keep up. Main statement:
`writes_stay_apart`: a write changes no other property, but for the gap that it fills and the length,
if it is past the end of an array; the length always counts the elements.
-/

set_option autoImplicit false

namespace Resumable

namespace Object

/-- Whether a key names an element of an array or its length. -/
def isElementKey (key : String) : Bool := key == "length" || (Number.position? key).isSome

/-- A change of the properties of an object. -/
inductive Change where
  | insert (key : String) (f : Field)
  | set (key : String) (v : Value)
  | push (items : List Value)

/-- Whether a change of an array makes no field that is named like an element. -/
def Change.IsRegular : Change → Prop
  | .insert key _ => isElementKey key = false
  | .set key _ => key ≠ "length"
  | .push _ => True

def after (o : Object) : Change → Object
  | .insert key f => o.insert key f
  | .set key v => o.set key v
  | .push items =>
    match o.elements? with
    | some elements => { o with role := .array (elements ++ items.toArray) }
    | none => o

def afterAll (o : Object) (changes : List Change) : Object := changes.foldl after o

/-- The fields of an array are no elements. -/
def Apart (o : Object) : Prop :=
  o.elements?.isSome = true → ∀ key, isElementKey key = true → o.fields.get? key = none

def written? (o : Object) (key other : String) : Option Value :=
  match o.elements?, Number.position? key with
  | some elements, some i =>
    if i < elements.size then none
    else if other = "length" then some (.ofNat (i + 1))
    else
      match Number.position? other with
      | some j => if elements.size ≤ j ∧ j < i then some .undefined else none
      | none => none
  | _, _ => none

variable {o : Object} {elements : Array Value} {key other : String} {v : Value} {f : Field}

section Shapes

@[simp] theorem proto_setField : (o.setField key v).proto = o.proto := by
  unfold setField
  repeat' split
  all_goals rfl

@[simp] theorem role_setField : (o.setField key v).role = o.role := by
  unfold setField
  repeat' split
  all_goals rfl

theorem elements?_setField : (o.setField key v).elements? = o.elements? := by
  rw [elements?, role_setField, elements?]

theorem set_element {i : Nat} (ho : o.elements? = some elements)
    (hi : Number.position? key = some i) :
    o.set key v = { o with role := .array (setElement elements i v) } := by
  rw [set, ho, hi]

theorem set_field (h : ¬ (o.elements?.isSome = true ∧ (Number.position? key).isSome = true)) :
    o.set key v = o.setField key v := by
  unfold set
  split
  · rename_i ho hi
    simp [ho, hi] at h
  · rfl

theorem proto_set : (o.set key v).proto = o.proto := by
  unfold set
  split
  · rfl
  · exact proto_setField

theorem isSome_elements?_set : (o.set key v).elements?.isSome = o.elements?.isSome := by
  unfold set
  split
  · rename_i ho hi
    rw [ho]
    rfl
  · rw [elements?_setField]

theorem isSome_elements?_after (c : Change) : (o.after c).elements?.isSome = o.elements?.isSome := by
  cases c with
  | insert key f => rfl
  | set key v => exact isSome_elements?_set
  | push items =>
    unfold after
    dsimp only
    split
    · rename_i ho
      rw [ho]
      rfl
    · rfl

end Shapes

section Fields

theorem get?_setField_ne (h : other ≠ key) : (o.setField key v).fields.get? other = o.fields.get? other := by
  unfold setField
  repeat' split
  all_goals simp [insert, insertValue, h]

theorem own?_setField_ne (h : other ≠ key) : (o.setField key v).own? other = o.own? other := by
  rw [own?, own?, elements?_setField, get?_setField_ne h]

theorem fields_set_of_isElementKey (ho : o.elements?.isSome = true) (hkey : key ≠ "length")
    (hother : isElementKey other = true) : (o.set key v).fields.get? other = o.fields.get? other := by
  unfold set
  split
  · rfl
  · rename_i hshape
    refine get?_setField_ne fun heq => ?_
    subst heq
    obtain ⟨elements, ho⟩ := Option.isSome_iff_exists.1 ho
    obtain ⟨i, hi⟩ : ∃ i, Number.position? other = some i := by
      simpa [isElementKey, hkey, Option.isSome_iff_exists] using hother
    exact hshape elements i ho hi

end Fields

section Invariant

theorem apart_of_fields (h : o.fields = .empty) : o.Apart := by
  intro _ key _
  rw [h, Dict.get?_empty]

theorem Apart.after (h : o.Apart) (c : Change) (hc : o.elements?.isSome = true → c.IsRegular) :
    (o.after c).Apart := by
  intro ho key hkey
  rw [isSome_elements?_after] at ho
  have hregular := hc ho
  cases c with
  | insert name f =>
    have hne : key ≠ name := by
      rintro rfl
      exact Bool.noConfusion (hkey.symm.trans hregular)
    show (o.fields.insert name f).get? key = none
    rw [Dict.get?_insert, if_neg hne, h ho key hkey]
  | set name v => exact (fields_set_of_isElementKey ho hregular hkey).trans (h ho key hkey)
  | push items =>
    obtain ⟨elements, hsome⟩ := Option.isSome_iff_exists.1 ho
    unfold Object.after
    simp only [hsome]
    exact h ho key hkey

theorem Apart.afterAll {changes : List Change} (h : o.Apart)
    (hc : o.elements?.isSome = true → ∀ c ∈ changes, c.IsRegular) : (o.afterAll changes).Apart := by
  induction changes generalizing o with
  | nil => exact h
  | cons c changes ih =>
    refine ih (h.after c fun ho => hc ho c List.mem_cons_self) fun ho c' hc' => ?_
    rw [isSome_elements?_after] at ho
    exact hc ho c' (List.mem_cons_of_mem c hc')

/-- On an array that is kept apart, positions and the length are read from the elements. -/
theorem Apart.own?_eq (h : o.Apart) (ho : o.elements? = some elements)
    (hkey : isElementKey key = true) : o.own? key = element? elements key := by
  rw [own?, h (by rw [ho]; rfl) key hkey, ho]
  rfl

theorem Apart.own?_length (h : o.Apart) (ho : o.elements? = some elements) :
    o.own? "length" = some (.ofNat elements.size) := h.own?_eq ho rfl

end Invariant

section Elements

variable {i j : Nat}

theorem size_setElement : (setElement elements i v).size = max elements.size (i + 1) := by
  simp only [setElement, Array.size_setIfInBounds, Array.size_append, Array.size_replicate]
  omega

theorem getElem?_setElement_self : (setElement elements i v)[i]? = some v := by
  unfold setElement
  dsimp only
  rw [Array.getElem?_setIfInBounds_self_of_lt]
  rw [Array.size_append, Array.size_replicate]
  omega

theorem getElem?_setElement_ne (h : j ≠ i) : (setElement elements i v)[j]? =
    if elements.size ≤ j ∧ j < i then some .undefined else elements[j]? := by
  unfold setElement
  dsimp only
  rw [Array.getElem?_setIfInBounds_ne (Ne.symm h), Array.getElem?_append, Array.getElem?_replicate]
  by_cases hlt : j < elements.size
  · rw [if_pos hlt, if_neg (by omega)]
  · rw [if_neg hlt]
    by_cases hgap : j < i
    · rw [if_pos (by omega), if_pos (by omega)]
    · rw [if_neg (by omega), if_neg (by omega), Array.getElem?_eq_none (by omega)]

theorem position?_length : Number.position? "length" = none := by decide

theorem element?_length : element? elements "length" = some (.ofNat elements.size) := rfl

theorem element?_position (hj : Number.position? key = some j) :
    element? elements key = elements[j]? := by
  have hne : key ≠ "length" := by
    rintro rfl
    cases position?_length.symm.trans hj
  rw [element?, if_neg (by simpa using hne), hj, Option.bind_some]

theorem element?_eq_none (h : isElementKey key = false) : element? elements key = none := by
  simp only [isElementKey, Bool.or_eq_false_iff, Option.isSome_eq_false_iff,
    Option.isNone_iff_eq_none] at h
  rw [element?, if_neg (by simp [h.1]), h.2, Option.bind_none]

end Elements

section Written

variable {i j : Nat}

theorem written?_length (ho : o.elements? = some elements) (hi : Number.position? key = some i) :
    o.written? key "length" = if i < elements.size then none else some (.ofNat (i + 1)) := by
  rw [written?, ho, hi]
  rfl

theorem written?_position (ho : o.elements? = some elements) (hi : Number.position? key = some i)
    (hj : Number.position? other = some j) :
    o.written? key other = if elements.size ≤ j ∧ j < i then some .undefined else none := by
  have hne : other ≠ "length" := by
    rintro rfl
    cases position?_length.symm.trans hj
  rw [written?, ho, hi]
  dsimp only
  rw [hj, if_neg hne]
  by_cases hlt : i < elements.size
  · rw [if_pos hlt, if_neg (by omega)]
  · rw [if_neg hlt]

theorem written?_of_not_isElementKey (h : isElementKey other = false) : o.written? key other = none := by
  have hparts : other ≠ "length" ∧ Number.position? other = none := by
    simpa [isElementKey] using h
  unfold written?
  split
  · rw [if_neg hparts.1, hparts.2, ite_self]
  · rfl

theorem written?_of_field (h : ¬ (o.elements?.isSome = true ∧ (Number.position? key).isSome = true)) :
    o.written? key other = none := by
  unfold written?
  split
  · rename_i ho hi
    simp [ho, hi] at h
  · rfl

end Written

theorem own?_setField_self (h : ∀ f, o.fields.get? key = some f → f.writable = true) :
    (o.setField key v).own? key = some v := by
  unfold setField
  cases hf : o.fields.get? key with
  | none => simp [own?, insertValue, insert]
  | some f => simp [own?, insert, h f hf]

theorem Apart.set_element {i : Nat} (h : o.Apart) (ho : o.elements? = some elements)
    (hi : Number.position? key = some i) : (o.set key v).Apart := by
  intro _ name hname
  rw [Object.set_element ho hi]
  exact h (by rw [ho]; rfl) name hname

theorem Apart.own?_set_self (h : o.Apart) (hwritable : ∀ f, o.fields.get? key = some f → f.writable = true) :
    (o.set key v).own? key = some v := by
  by_cases hshape : o.elements?.isSome = true ∧ (Number.position? key).isSome = true
  · obtain ⟨elements, ho⟩ := Option.isSome_iff_exists.1 hshape.1
    obtain ⟨i, hi⟩ := Option.isSome_iff_exists.1 hshape.2
    have hset : (o.set key v).elements? = some (setElement elements i v) := by
      rw [Object.set_element ho hi]
      rfl
    have helement : isElementKey key = true := by simp [isElementKey, hi]
    rw [(h.set_element ho hi).own?_eq hset helement, element?_position hi, getElem?_setElement_self]
  · rw [set_field hshape, own?_setField_self hwritable]

theorem Apart.own?_set_element {i : Nat} (h : o.Apart) (ho : o.elements? = some elements)
    (hi : Number.position? key = some i) (hspelling : Number.position? other ≠ some i) :
    (o.set key v).own? other = (o.written? key other).or (o.own? other) := by
  have hset : (o.set key v).elements? = some (setElement elements i v) := by
    rw [Object.set_element ho hi]
    rfl
  have hfields : (o.set key v).fields = o.fields := by rw [Object.set_element ho hi]
  have hapart : (o.set key v).Apart := h.set_element ho hi
  by_cases helement : isElementKey other = true
  · rw [hapart.own?_eq hset helement, h.own?_eq ho helement]
    by_cases hlength : other = "length"
    · subst hlength
      rw [element?_length, element?_length, size_setElement, written?_length ho hi]
      split
      · rw [Nat.max_eq_left (by omega), Option.none_or]
      · rw [Nat.max_eq_right (by omega), Option.some_or]
    · obtain ⟨j, hj⟩ : ∃ j, Number.position? other = some j := by
        simpa [isElementKey, hlength, Option.isSome_iff_exists] using helement
      have hji : j ≠ i := fun heq => hspelling (by rw [hj, heq])
      rw [element?_position hj, element?_position hj, getElem?_setElement_ne hji,
        written?_position ho hi hj]
      split
      · rw [Option.some_or]
      · rw [Option.none_or]
  · have hplain := Bool.eq_false_iff.2 helement
    rw [written?_of_not_isElementKey hplain, Option.none_or, own?, own?, hfields, hset, ho,
      Option.bind_some, Option.bind_some, element?_eq_none hplain, element?_eq_none hplain]

/-- A write changes no other property, but for what it adds past the end of an array. -/
theorem Apart.own?_set (h : o.Apart) (hne : other ≠ key)
    (hspelling : o.elements?.isSome = true → ∀ i, Number.position? key = some i →
      Number.position? other ≠ some i) :
    (o.set key v).own? other = (o.written? key other).or (o.own? other) := by
  by_cases hshape : o.elements?.isSome = true ∧ (Number.position? key).isSome = true
  · obtain ⟨elements, ho⟩ := Option.isSome_iff_exists.1 hshape.1
    obtain ⟨i, hi⟩ := Option.isSome_iff_exists.1 hshape.2
    exact h.own?_set_element ho hi (hspelling hshape.1 i hi)
  · rw [set_field hshape, own?_setField_ne hne, written?_of_field hshape, Option.none_or]

end Object

namespace Heap

variable {h : Heap} {id reader : ObjectId} {f : Object → Object} {key : String}

theorem chain_modify (hf : ∀ o : Object, (f o).proto = o.proto) :
    (h.modify id f).chain reader = h.chain reader := by
  have hproto (r : ObjectId) : ((h.modify id f).get? r).bind Object.proto =
      (h.get? r).bind Object.proto := by
    rw [get?_modify]
    split
    · cases h.get? r with
      | none => rfl
      | some o => exact hf o
    · rfl
  induction reader using Nat.strongRecOn with
  | ind reader ih =>
    rw [chain, chain, hproto]
    congr 1
    cases (h.get? reader).bind Object.proto with
    | none => rfl
    | some proto =>
      dsimp only
      split
      · rename_i hlt
        exact ih proto hlt
      · rfl

/-- An object that keeps its own property under a key keeps what every object reads under it. -/
theorem property?_modify (hf : ∀ o : Object, (f o).proto = o.proto)
    (hown : ∀ o, h.get? id = some o → (f o).own? key = o.own? key) :
    (h.modify id f).property? reader key = h.property? reader key := by
  have hread (r : ObjectId) : ((h.modify id f).get? r).bind (·.own? key) =
      (h.get? r).bind (·.own? key) := by
    rw [get?_modify]
    split
    · rename_i heq
      subst heq
      cases ho : h.get? id with
      | none => rfl
      | some o => exact hown o ho
    · rfl
  rw [property?, property?, chain_modify hf]
  simp only [hread]

theorem property?_own {o : Object} {v : Value} (ho : h.get? id = some o) (hown : o.own? key = some v) :
    h.property? id key = some v := by
  rw [property?, chain, List.findSome?_cons, ho, Option.bind_some, hown]

end Heap

section Writes

open Object (Change)

variable {w : World} {id : ObjectId} {o₀ : Object} {changes : List Change}

theorem writeMember_obj (id : ObjectId) (key : String) (v : Value) (w : World) :
    (writeMember (.obj id) key v : Run Unit) w =
      .done () { w with heap := w.heap.modify id (·.set key v) } := rfl

theorem pushAll_obj (id : ObjectId) (items : List Value) (w : World) :
    Native.pushAll (.obj id) items w = (match w.heap.elements? (.obj id) with
      | some elements => .done (.ofNat (elements ++ items.toArray).size)
          { w with heap := w.heap.modify id ({ · with role := .array (elements ++ items.toArray) }) }
      | none => (Run.throwType "Array.prototype.push called on non-array" : Run Value) w) := by
  show (match w.heap.elements? (.obj id) with | some _ => _ | none => _ : Run Value) w = _
  cases w.heap.elements? (.obj id) <;> rfl

theorem pushAll_array {o : Object} {elements : Array Value} (items : List Value)
    (ho : w.heap.get? id = some o) (helements : o.elements? = some elements) :
    ∃ w', Native.pushAll (.obj id) items w = .done (.ofNat (elements.size + items.length)) w' ∧
      w'.heap.get? id = some (o.after (.push items)) := by
  have hread : w.heap.elements? (.obj id) = some elements := by
    show (w.heap.get? id).bind Object.elements? = _
    rw [ho, Option.bind_some, helements]
  refine ⟨{ w with heap := w.heap.modify id ({ · with role := .array (elements ++ items.toArray) }) },
    ?_, ?_⟩
  · rw [pushAll_obj, hread]
    dsimp only
    rw [show (elements ++ items.toArray).size = elements.size + items.length by simp]
  · show (w.heap.modify id _).get? id = _
    rw [Heap.get?_modify, if_pos rfl, ho, Object.after, helements]
    rfl

/-- A write to an object is read back, and changes what no object reads under another key, but for the gap
that it fills and the length, if it is past the end of an array. The length counts the elements. -/
theorem writes_stay_apart {key other : String} {v : Value} (hempty : o₀.fields = .empty)
    (hregular : o₀.elements?.isSome = true → ∀ c ∈ changes, Change.IsRegular c)
    (ho : w.heap.get? id = some (o₀.afterAll changes)) (hne : other ≠ key)
    (hspelling : (o₀.afterAll changes).elements?.isSome = true → ∀ i, Number.position? key = some i →
      Number.position? other ≠ some i) :
    (∀ elements, (o₀.afterAll changes).elements? = some elements →
      w.heap.property? id "length" = some (.ofNat elements.size)) ∧
    ∃ w', (writeMember (.obj id) key v : Run Unit) w = .done () w' ∧
      ((∀ f, (o₀.afterAll changes).fields.get? key = some f → f.writable = true) →
        w'.heap.property? id key = some v) ∧
      match (o₀.afterAll changes).written? key other with
      | none => ∀ reader, w'.heap.property? reader other = w.heap.property? reader other
      | some x => w'.heap.property? id other = some x := by
  have hapart : (o₀.afterAll changes).Apart := (Object.apart_of_fields hempty).afterAll hregular
  have hown := hapart.own?_set (v := v) hne hspelling
  have ho' : (w.heap.modify id (·.set key v)).get? id = some ((o₀.afterAll changes).set key v) := by
    rw [Heap.get?_modify, if_pos rfl, ho]
    rfl
  refine ⟨fun elements helements => Heap.property?_own ho (hapart.own?_length helements), _,
    writeMember_obj id key v w, fun hwritable => Heap.property?_own ho' (hapart.own?_set_self hwritable), ?_⟩
  split
  · rename_i hwritten
    intro reader
    refine Heap.property?_modify (fun o => Object.proto_set) fun o ho' => ?_
    cases ho'.symm.trans ho
    rw [hown, hwritten, Option.none_or]
  · rename_i x hwritten
    exact Heap.property?_own ho' (by rw [hown, hwritten, Option.some_or])

/-- An array that has grown twice is written past its end. -/
theorem writes_stay_apart_grown :
    let o₀ : Object := ⟨none, .empty, .array #[]⟩
    let changes : List Change := [.set "1" (.bool true), .insert "tag" ⟨.null, true, true⟩, .push [.null]]
    let w : World := { World.initial with heap := ⟨#[o₀.afterAll changes]⟩ }
    w.heap.property? 0 "length" = some (.ofNat 3) ∧
      ∃ w', (writeMember (.obj 0) "5" .null : Run Unit) w = .done () w' ∧
        w'.heap.property? 0 "length" = some (.ofNat 6) := by
  intro o₀ changes w
  have hregular : ∀ c ∈ changes, Change.IsRegular c := by
    rw [List.forall_mem_cons, List.forall_mem_cons, List.forall_mem_singleton]
    exact ⟨show "1" ≠ "length" by decide, rfl, trivial⟩
  have hobject : w.heap.get? 0 = some (o₀.afterAll changes) := rfl
  have hspelling (i : Nat) (_ : Number.position? "5" = some i) :
      Number.position? "length" ≠ some i := by
    rw [Object.position?_length]
    exact (Option.some_ne_none i).symm
  obtain ⟨hlength, w', hw, -, hwritten⟩ := writes_stay_apart (v := .null) rfl (fun _ => hregular)
    hobject (by decide) fun _ => hspelling
  exact ⟨hlength #[.undefined, .bool true, .null] rfl, w', hw, hwritten⟩

/-- Another spelling of a position names the same element, and a write to the length of an array hides how
many elements there are. -/
theorem writes_collide :
    let o : Object := ⟨none, .empty, .array #[.null, .null]⟩
    let w : World := { World.initial with heap := ⟨#[o]⟩ }
    (∃ w', (writeMember (.obj 0) "01" (.bool true) : Run Unit) w = .done () w' ∧
      w.heap.property? 0 "1" = some .null ∧ w'.heap.property? 0 "1" = some (.bool true)) ∧
    ∃ w', (writeMember (.obj 0) "length" .null : Run Unit) w = .done () w' ∧
      w'.heap.elements? (.obj 0) = some #[.null, .null] ∧ w'.heap.property? 0 "length" = some .null := by
  intro o w
  refine ⟨⟨_, rfl, ?_, ?_⟩, _, rfl, rfl, ?_⟩
  · exact Heap.property?_own (o := o) rfl rfl
  · exact Heap.property?_own (o := o.set "01" (.bool true)) rfl rfl
  · exact Heap.property?_own (o := o.set "length" .null) rfl rfl

end Writes

end Resumable
