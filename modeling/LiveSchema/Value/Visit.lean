import LiveSchema.Schema.Hierarchy
import LiveSchema.Value.Path

/-!
# Visiting values

The type of a value says which values lie inside it: the fields of a record, the elements of a list,
the payload of a variant, the keys and values of a map, the target of an owning pointer.
`Registry.visits` lists all of them in pre-order.  Whatever does not have the shape its type calls for
has nothing inside.
-/

namespace LiveSchema

/-- A value directly inside another one. -/
structure Child where
  type : TypeReference
  segment : PathSegment
  value : Json

/-- A value inside another one, at any depth. -/
structure Visit where
  type : TypeReference
  path : ValuePath
  value : Json

/-- The parts of a value that its type gives types to. -/
inductive Parts where
  | none
  | fields (fields : List Field) (entries : Entries)
  | items (element : TypeReference) (items : List Json)
  | payload (alternative : TypeReference) (index payload : Json)
  | pointee (target : TypeReference)
  | pairs (key mapped : TypeReference) (pairs : List Json)

namespace Registry

/-- The parts of a value of a type. -/
def parts (registry : Registry) (reference : TypeReference) (value : Json) : Parts :=
  match registry.get? reference.handle with
  | none => .none
  | some definition =>
    match definition.body, value with
    | .record _, .object entries => .fields (registry.allFields reference.handle) entries
    | .builtin .list, .array items | .builtin .array, .array items =>
      match reference.typeArgument? 0 with
      | some element => .items element items
      | none => .none
    | .builtin .variant, .array [index, payload] =>
      match index.unsigned?.bind reference.typeArgument? with
      | some alternative => .payload alternative index payload
      | none => .none
    | .builtin .own, value =>
      match reference.typeArgument? 0 with
      | some target => if value.isNull then .none else .pointee target
      | none => .none
    | .builtin .map, .array pairs =>
      match reference.typeArgument? 0, reference.typeArgument? 1 with
      | some key, some mapped => .pairs key mapped pairs
      | _, _ => .none
    | _, _ => .none

end Registry

namespace Parts

/-- The children of an entry of a map. -/
def childrenOfPair (key mapped : TypeReference) (index : Nat) : Json → List Child
  | .array [first] => [⟨key, .mapKey index, first⟩]
  | .array (first :: second :: _) =>
    [⟨key, .mapKey index, first⟩, ⟨mapped, .mapValue index, second⟩]
  | _ => []

/-- The children among the parts of `value`, in order. -/
def children (value : Json) : Parts → List Child
  | .none => []
  | .fields declared entries =>
    declared.filterMap fun field =>
      (Entries.value? entries field.name).map fun value => ⟨field.type, .field field.name, value⟩
  | .items element stored => stored.zipIdx.map fun (item, index) => ⟨element, .index index, item⟩
  | .payload alternative _ held => [⟨alternative, .payload, held⟩]
  | .pointee target => [⟨target, .pointee, value⟩]
  | .pairs key mapped stored =>
    stored.zipIdx.flatMap fun (pair, index) => childrenOfPair key mapped index pair

end Parts

namespace Registry

/-- The values directly inside a value of a type, in order. -/
def childValues (registry : Registry) (reference : TypeReference) (value : Json) : List Child :=
  (registry.parts reference value).children value

/-! ## What parts and children are -/

/-- Where parts come from: those of a record from its effective fields, all others from the arguments of
the type. -/
inductive PartsOf (registry : Registry) (reference : TypeReference) : Json → Parts → Prop
  | none (value : Json) : PartsOf registry reference value .none
  | fields {definition : TypeDefinition} {record : Record} (entries : Entries)
      (hfound : registry.get? reference.handle = some definition)
      (hbody : definition.body = .record record) :
      PartsOf registry reference (.object entries)
        (.fields (registry.allFields reference.handle) entries)
  | items {definition : TypeDefinition} {element : TypeReference} (stored : List Json)
      (hfound : registry.get? reference.handle = some definition)
      (hbody : definition.body = .builtin .list ∨ definition.body = .builtin .array)
      (helement : reference.typeArgument? 0 = some element) :
      PartsOf registry reference (.array stored) (.items element stored)
  | payload {definition : TypeDefinition} {alternative : TypeReference} (index held : Json)
      (hfound : registry.get? reference.handle = some definition)
      (hbody : definition.body = .builtin .variant)
      (halternative : index.unsigned?.bind reference.typeArgument? = some alternative) :
      PartsOf registry reference (.array [index, held]) (.payload alternative index held)
  | pointee {definition : TypeDefinition} {target : TypeReference} (value : Json)
      (hfound : registry.get? reference.handle = some definition)
      (hbody : definition.body = .builtin .own)
      (htarget : reference.typeArgument? 0 = some target) (hpresent : value.isNull = false) :
      PartsOf registry reference value (.pointee target)
  | pairs {definition : TypeDefinition} {key mapped : TypeReference} (stored : List Json)
      (hfound : registry.get? reference.handle = some definition)
      (hbody : definition.body = .builtin .map)
      (hkey : reference.typeArgument? 0 = some key)
      (hmapped : reference.typeArgument? 1 = some mapped) :
      PartsOf registry reference (.array stored) (.pairs key mapped stored)

theorem partsOf_parts (registry : Registry) (reference : TypeReference) (value : Json) :
    registry.PartsOf reference value (registry.parts reference value) := by
  unfold parts
  split
  · exact .none value
  next hfound =>
      split
      next hbody => exact .fields _ hfound hbody
      next hbody =>
          split
          next helement => exact .items _ hfound (Or.inl hbody) helement
          next => exact .none _
      next hbody =>
          split
          next helement => exact .items _ hfound (Or.inr hbody) helement
          next => exact .none _
      next hbody =>
          split
          next halternative => exact .payload _ _ hfound hbody halternative
          next => exact .none _
      next hbody =>
          split
          next htarget =>
              split
              next => exact .none _
              next hpresent => exact .pointee _ hfound hbody htarget (eq_false_of_ne_true hpresent)
          next => exact .none _
      next hbody =>
          split
          next hkey hmapped => exact .pairs _ hfound hbody hkey hmapped
          next => exact .none _
      next => exact .none _

/-- Parts that are not empty are known by where they come from. -/
theorem PartsOf.parts_eq {registry : Registry} {reference : TypeReference} {value : Json}
    {parts : Parts} (h : registry.PartsOf reference value parts) (hsome : parts ≠ .none) :
    registry.parts reference value = parts := by
  cases h with
  | none => exact absurd rfl hsome
  | fields entries hfound hbody => simp [Registry.parts, hfound, hbody]
  | items stored hfound hbody helement =>
      rcases hbody with hbody | hbody <;> simp [Registry.parts, hfound, hbody, helement]
  | payload index held hfound hbody halternative =>
      simp [Registry.parts, hfound, hbody, halternative]
  | pointee value hfound hbody htarget hpresent =>
      simp [Registry.parts, hfound, hbody, htarget, hpresent]
  | pairs stored hfound hbody hkey hmapped =>
      simp [Registry.parts, hfound, hbody, hkey, hmapped]

/-- The ways in which a child lies in a value of a type. -/
inductive HasChild (registry : Registry) (reference : TypeReference) : Json → Child → Prop
  | field {entries : Entries} {field : Field} {held : Json}
      (hfield : field ∈ registry.allFields reference.handle)
      (hheld : Entries.value? entries field.name = some held) :
      HasChild registry reference (.object entries) ⟨field.type, .field field.name, held⟩
  | item {items : List Json} {element : TypeReference} {index : Nat} {item : Json}
      (hargument : reference.typeArgument? 0 = some element) (hitem : items[index]? = some item) :
      HasChild registry reference (.array items) ⟨element, .index index, item⟩
  | payload {index held : Json} {alternative : TypeReference}
      (hargument : index.unsigned?.bind reference.typeArgument? = some alternative) :
      HasChild registry reference (.array [index, held]) ⟨alternative, .payload, held⟩
  | pointee {value : Json} {target : TypeReference}
      (hargument : reference.typeArgument? 0 = some target) (hpresent : value.isNull = false) :
      HasChild registry reference value ⟨target, .pointee, value⟩
  | mapKey {pairs rest : List Json} {key : TypeReference} {index : Nat} {first : Json}
      (hargument : reference.typeArgument? 0 = some key)
      (hpair : pairs[index]? = some (.array (first :: rest))) :
      HasChild registry reference (.array pairs) ⟨key, .mapKey index, first⟩
  | mapValue {pairs rest : List Json} {mapped : TypeReference} {index : Nat} {first second : Json}
      (hargument : reference.typeArgument? 1 = some mapped)
      (hpair : pairs[index]? = some (.array (first :: second :: rest))) :
      HasChild registry reference (.array pairs) ⟨mapped, .mapValue index, second⟩

theorem hasChild_of_mem_childrenOfPair {registry : Registry} {reference : TypeReference}
    {key mapped : TypeReference} {pairs : List Json} {pair : Json} {index : Nat} {child : Child}
    (hkey : reference.typeArgument? 0 = some key)
    (hmapped : reference.typeArgument? 1 = some mapped) (hpair : pairs[index]? = some pair)
    (h : child ∈ Parts.childrenOfPair key mapped index pair) :
    registry.HasChild reference (.array pairs) child := by
  unfold Parts.childrenOfPair at h
  split at h
  next first =>
      obtain rfl := List.mem_singleton.mp h
      exact .mapKey hkey hpair
  next first second rest =>
      rcases List.mem_cons.mp h with rfl | h
      · exact .mapKey hkey hpair
      · obtain rfl := List.mem_singleton.mp h
        exact .mapValue hmapped hpair
  next => exact absurd h List.not_mem_nil

theorem hasChild_of_mem_childValues {registry : Registry} {reference : TypeReference} {value : Json}
    {child : Child} (h : child ∈ registry.childValues reference value) :
    registry.HasChild reference value child := by
  have hparts := registry.partsOf_parts reference value
  unfold childValues at h
  generalize registry.parts reference value = parts at h hparts
  cases hparts with
  | none => exact absurd h List.not_mem_nil
  | fields entries hfound hbody =>
      obtain ⟨field, hfield, hchild⟩ := List.mem_filterMap.mp h
      obtain ⟨held, hheld, rfl⟩ := Option.map_eq_some_iff.mp hchild
      exact .field hfield hheld
  | items stored hfound hbody helement =>
      obtain ⟨⟨item, index⟩, hitem, rfl⟩ := List.mem_map.mp h
      exact .item helement (List.mem_zipIdx_iff_getElem?.mp hitem)
  | payload index held hfound hbody halternative =>
      obtain rfl := List.mem_singleton.mp h
      exact .payload halternative
  | pointee value hfound hbody htarget hpresent =>
      obtain rfl := List.mem_singleton.mp h
      exact .pointee htarget hpresent
  | pairs stored hfound hbody hkey hmapped =>
      obtain ⟨⟨pair, index⟩, hpair, hchild⟩ := List.mem_flatMap.mp h
      exact hasChild_of_mem_childrenOfPair hkey hmapped (List.mem_zipIdx_iff_getElem?.mp hpair) hchild

/-! ## Children are smaller -/

theorem sizeOf_lt_of_entry {entries : Entries} {name : String} {value : Json}
    (h : Entries.value? entries name = some value) :
    sizeOf value < 1 + sizeOf entries := by
  simp only [Entries.value?, Option.map_eq_some_iff] at h
  obtain ⟨⟨key, value⟩, found, rfl⟩ := h
  have member := List.sizeOf_lt_of_mem (List.mem_of_find?_eq_some found)
  simp only [Prod.mk.sizeOf_spec] at member ⊢
  omega

theorem sizeOf_lt_of_item {items : List Json} {item : Json} (h : item ∈ items) :
    sizeOf item < 1 + sizeOf items := by
  have member := List.sizeOf_lt_of_mem h
  omega

/-- A child is smaller than the value, or it is the target of a pointer and its type is smaller. -/
theorem child_smaller {registry : Registry} {reference : TypeReference} {value : Json}
    {child : Child} (h : child ∈ registry.childValues reference value) :
    Prod.Lex (· < ·) (· < ·) (sizeOf child.value, sizeOf child.type)
      (sizeOf value, sizeOf reference) := by
  cases hasChild_of_mem_childValues h with
  | field hfield hheld => exact .left _ _ (by simpa using sizeOf_lt_of_entry hheld)
  | item hargument hitem =>
      exact .left _ _ (by simpa using sizeOf_lt_of_item (List.mem_of_getElem? hitem))
  | payload hargument =>
      exact .left _ _ (by simp only [Json.array.sizeOf_spec, List.cons.sizeOf_spec]; omega)
  | pointee hargument hpresent =>
      exact .right _ (TypeReference.sizeOf_lt_of_typeArgument? hargument)
  | mapKey hargument hpair | mapValue hargument hpair =>
      have outer := sizeOf_lt_of_item (List.mem_of_getElem? hpair)
      simp only [Json.array.sizeOf_spec, List.cons.sizeOf_spec] at outer
      exact .left _ _ (by simp only [Json.array.sizeOf_spec]; omega)

/-! ## The walk -/

/-- Every value inside a value of a type, in pre-order, `path` leading to the value itself. -/
def visitsFrom (registry : Registry) (path : ValuePath) (reference : TypeReference)
    (value : Json) : List Visit :=
  (registry.childValues reference value).attach.flatMap fun ⟨child, _⟩ =>
    let here := path.push child.segment
    ⟨child.type, here, child.value⟩ :: registry.visitsFrom here child.type child.value
termination_by (sizeOf value, sizeOf reference)
decreasing_by exact child_smaller (by assumption)

/-- Every value inside a value of a type, in pre-order. -/
def visits (registry : Registry) (reference : TypeReference) (value : Json) : List Visit :=
  registry.visitsFrom .root reference value

/-- Whether a type occurs in the type of a value or of a value inside it. -/
def containsType (registry : Registry) (reference : TypeReference) (value : Json)
    (handle : TypeHandle) : Bool :=
  reference.mentions handle ||
    (registry.visits reference value).any fun visit => visit.type.mentions handle

end Registry

/-- The visits up to and with the first that meets a condition, and whether one does. -/
def visitsUntil (stop : Visit → Bool) : List Visit → List Visit × Bool
  | [] => ([], false)
  | visit :: rest =>
    if stop visit then ([visit], true)
    else
      let (seen, stopped) := visitsUntil stop rest
      (visit :: seen, stopped)

end LiveSchema
