import LiveSchema.Error
import LiveSchema.Store
import LiveSchema.Value.Conversion

/-!
# Mutations

A mutation is a change that a user asks for.  Carrying it out either refuses it or answers a change:
the new content, the answer to the user, and what the change log says about it.
-/

namespace LiveSchema

/-- A change of types or stored values. -/
inductive Mutation where
  | addStruct
  | addClass
  | addEnum
  | setTypeName (type : TypeHandle) (name : String)
  | setRecordBaseType (record : TypeHandle) (base : Option TypeReference)
  | setRecordTable (record : TypeHandle) (enabled : Bool)
  | deleteType (type : TypeHandle)
  | addField (record : TypeHandle)
  | setFieldName (record : TypeHandle) (field name : String)
  | setFieldType (record : TypeHandle) (field : String) (type : TypeReference)
  | setFieldFlags (record : TypeHandle) (field : String) (flags : FieldFlags)
  | swapFields (record : TypeHandle) (first second : Nat)
  /-- Moves a field down to a record that derives from the one that declares it. -/
  | moveField (source : TypeHandle) (field : String) (target : TypeHandle)
  /-- Copies the fields of the base type and derives from its base type instead. -/
  | flattenBase (record : TypeHandle)
  | deleteField (record : TypeHandle) (field : String)
  | addEnumerator (enumeration : TypeHandle)
  | setEnumeratorName (enumeration : TypeHandle) (index : Nat) (name : String)
  | setEnumeratorValue (enumeration : TypeHandle) (index : Nat) (value : Option Int64)
  | deleteEnumerator (enumeration : TypeHandle) (index : Nat)
  | addStore (store : String)
  | addRoot (store root : String) (type : TypeReference)
  | setRootValue (store root : String) (value : Json)
  | deleteRoot (store root : String)
deriving Repr

namespace Mutation

/-- The name of a mutation in the change log. -/
def action : Mutation → String
  | addStruct => "add_struct"
  | addClass => "add_class"
  | addEnum => "add_enum"
  | setTypeName _ _ => "set_type_name"
  | setRecordBaseType _ _ => "set_record_base_type"
  | setRecordTable _ _ => "set_record_table"
  | deleteType _ => "delete_type"
  | addField _ => "add_field"
  | setFieldName _ _ _ => "set_field_name"
  | setFieldType _ _ _ => "set_field_type"
  | setFieldFlags _ _ _ => "set_field_flags"
  | swapFields _ _ _ => "swap_fields"
  | moveField _ _ _ => "move_field"
  | flattenBase _ => "copy_fields_and_move_up_base_type_hierarchy"
  | deleteField _ _ => "delete_field"
  | addEnumerator _ => "add_enumerator"
  | setEnumeratorName _ _ _ => "set_enumerator_name"
  | setEnumeratorValue _ _ _ => "set_enumerator_value"
  | deleteEnumerator _ _ => "delete_enumerator"
  | addStore _ => "add_store"
  | addRoot _ _ _ => "add_root"
  | setRootValue _ _ _ => "set_root_value"
  | deleteRoot _ _ => "delete_root"

end Mutation

/-- What a mutation answers. -/
inductive Answer where
  | done
  | type (handle : TypeHandle)
  | name (name : String)
  | conversion (result : ConversionResult)
deriving DecidableEq, Repr

/-- A mutation carried out. -/
structure Change where
  content : Content
  /-- What the change log says about the change. -/
  params : Entries
  answer : Answer := .done

namespace Content

/-- The content with another registry. -/
def withRegistry (content : Content) (registry : Registry) : Content :=
  { content with registry := registry }

end Content
end LiveSchema
