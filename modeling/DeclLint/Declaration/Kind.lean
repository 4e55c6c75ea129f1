/-!
# Kinds of declarations

Every kind has one identifier under `source.lang.swift.decl`, by which a
structure producer names it, and one short name.

* `DeclarationKind.ofIdentifier?_identifier` — the identifiers tell the kinds
  apart;
* `DeclarationKind.ofName?_name` — so do the short names.
-/

namespace DeclLint

/-- What a declaration declares. -/
inductive DeclarationKind where
  | structType
  | classType
  | enumType
  | protocolType
  | actorType
  | extension
  | extensionStruct
  | extensionClass
  | extensionEnum
  | extensionProtocol
  | enumCase
  | enumElement
  | typealias
  | associatedType
  | varInstance
  | varStatic
  | varClass
  | varLocal
  | varGlobal
  | varParameter
  | functionMethodInstance
  | functionMethodStatic
  | functionMethodClass
  | functionConstructor
  | functionDestructor
  | functionSubscript
  | functionFree
  | functionAccessorGetter
  | functionAccessorSetter
  | functionAccessorDidSet
  | functionAccessorWillSet
deriving DecidableEq, Repr

namespace DeclarationKind

/-- Every kind, in the order of the declaration above. -/
def all : List DeclarationKind :=
  [structType, classType, enumType, protocolType, actorType, extension,
    extensionStruct, extensionClass, extensionEnum, extensionProtocol, enumCase,
    enumElement, typealias, associatedType, varInstance, varStatic, varClass,
    varLocal, varGlobal, varParameter, functionMethodInstance,
    functionMethodStatic, functionMethodClass, functionConstructor,
    functionDestructor, functionSubscript, functionFree, functionAccessorGetter,
    functionAccessorSetter, functionAccessorDidSet, functionAccessorWillSet]

/-- The part of the identifier after `source.lang.swift.decl.`. -/
def identifierTail : DeclarationKind → String
  | structType => "struct"
  | classType => "class"
  | enumType => "enum"
  | protocolType => "protocol"
  | actorType => "actor"
  | extension => "extension"
  | extensionStruct => "extension.struct"
  | extensionClass => "extension.class"
  | extensionEnum => "extension.enum"
  | extensionProtocol => "extension.protocol"
  | enumCase => "enumcase"
  | enumElement => "enumelement"
  | typealias => "typealias"
  | associatedType => "associatedtype"
  | varInstance => "var.instance"
  | varStatic => "var.static"
  | varClass => "var.class"
  | varLocal => "var.local"
  | varGlobal => "var.global"
  | varParameter => "var.parameter"
  | functionMethodInstance => "function.method.instance"
  | functionMethodStatic => "function.method.static"
  | functionMethodClass => "function.method.class"
  | functionConstructor => "function.constructor"
  | functionDestructor => "function.destructor"
  | functionSubscript => "function.subscript"
  | functionFree => "function.free"
  | functionAccessorGetter => "function.accessor.getter"
  | functionAccessorSetter => "function.accessor.setter"
  | functionAccessorDidSet => "function.accessor.didset"
  | functionAccessorWillSet => "function.accessor.willset"

/-- The identifier a structure producer gives the kind. -/
def identifier (k : DeclarationKind) : String :=
  "source.lang.swift.decl." ++ k.identifierTail

/-- The short name of the kind: its words, joined by underscores. -/
def name : DeclarationKind → String
  | structType => "struct"
  | classType => "class"
  | enumType => "enum"
  | protocolType => "protocol"
  | actorType => "actor"
  | extension => "extension"
  | extensionStruct => "extension_struct"
  | extensionClass => "extension_class"
  | extensionEnum => "extension_enum"
  | extensionProtocol => "extension_protocol"
  | enumCase => "enum_case"
  | enumElement => "enum_element"
  | typealias => "typealias"
  | associatedType => "associated_type"
  | varInstance => "var_instance"
  | varStatic => "var_static"
  | varClass => "var_class"
  | varLocal => "var_local"
  | varGlobal => "var_global"
  | varParameter => "var_parameter"
  | functionMethodInstance => "function_method_instance"
  | functionMethodStatic => "function_method_static"
  | functionMethodClass => "function_method_class"
  | functionConstructor => "function_constructor"
  | functionDestructor => "function_destructor"
  | functionSubscript => "function_subscript"
  | functionFree => "function_free"
  | functionAccessorGetter => "function_accessor_getter"
  | functionAccessorSetter => "function_accessor_setter"
  | functionAccessorDidSet => "function_accessor_did_set"
  | functionAccessorWillSet => "function_accessor_will_set"

/-- The kind with a given identifier; an unknown identifier has none. -/
def ofIdentifier? (identifier : String) : Option DeclarationKind :=
  all.find? fun k => k.identifier == identifier

/-- The kind with a given short name; an unknown name has none. -/
def ofName? (name : String) : Option DeclarationKind :=
  all.find? fun k => k.name == name

/-- Containers whose instances are copied by value. -/
def isValueType : DeclarationKind → Bool
  | structType | enumType => true
  | _ => false

/-- The identifiers tell the kinds apart. -/
theorem ofIdentifier?_identifier (k : DeclarationKind) :
    ofIdentifier? k.identifier = some k := by
  cases k <;> decide +kernel

/-- The short names tell the kinds apart. -/
theorem ofName?_name (k : DeclarationKind) : ofName? k.name = some k := by
  cases k <;> decide +kernel

end DeclarationKind

end DeclLint
