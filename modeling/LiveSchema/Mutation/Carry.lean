import LiveSchema.Mutation.Enumerators
import LiveSchema.Mutation.Fields
import LiveSchema.Mutation.Roots
import LiveSchema.Mutation.Types

/-!
# Carrying out mutations

Every mutation is carried out by a function of its own.  A refused mutation changes nothing, because
the content it was given is still at hand.
-/

namespace LiveSchema
namespace Mutation

/-- Carries out a mutation on a content. -/
def carryOut (content : Content) : Mutation → Except Error Change
  | addStruct => content.addType "Struct" (TypeDefinition.newRecord .struct)
  | addClass => content.addType "Class" (TypeDefinition.newRecord .class)
  | addEnum => content.addType "Enum" TypeDefinition.newEnumeration
  | setTypeName type name => content.setTypeName type name
  | setRecordBaseType record base => content.setRecordBaseType record base
  | setRecordTable record enabled => content.setRecordTable record enabled
  | deleteType type => content.deleteType type
  | addField record => content.addField record
  | setFieldName record field name => content.setFieldName record field name
  | setFieldType record field type => content.setFieldType record field type
  | setFieldFlags record field flags => content.setFieldFlags record field flags
  | swapFields record first second => content.swapFields record first second
  | moveField source field target => content.moveField source field target
  | flattenBase record => content.flattenBase record
  | deleteField record field => content.deleteField record field
  | addEnumerator enumeration => content.addEnumerator enumeration
  | setEnumeratorName enumeration index name => content.setEnumeratorName enumeration index name
  | setEnumeratorValue enumeration index value =>
    content.setEnumeratorValue enumeration index value
  | deleteEnumerator enumeration index => content.deleteEnumerator enumeration index
  | addStore store => content.addStore store
  | addRoot store root type => content.addRoot store root type
  | setRootValue store root value => content.setRootValue store root value
  | deleteRoot store root => content.deleteRoot store root

end Mutation
end LiveSchema
