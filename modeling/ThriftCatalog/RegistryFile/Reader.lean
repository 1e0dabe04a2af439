import ThriftCatalog.RegistryFile.Basic
import ThriftCatalog.Document.Reader

/-! Registry files from document trees. -/
namespace ThriftCatalog

open Document Document.Reader

def FieldDef.reader : Reader FieldDef :=
  record ["name", "type", "requirement", "doc"] fun m => do
    return {
      name := ← m.required "name" string
      type := ← m.required "type" string
      requirement := ← m.defaulted "requirement" .default (word Requirement.ofWord?)
      doc := ← m.optional "doc" string }

def MethodDef.reader : Reader MethodDef :=
  record ["name", "doc", "params", "returns", "throws", "oneway"] fun m => do
    return {
      name := ← m.required "name" string
      doc := ← m.optional "doc" string
      params := ← m.defaulted "params" [] (list FieldDef.reader)
      returns := ← m.optional "returns" string
      throws := ← m.defaulted "throws" [] (list FieldDef.reader)
      oneway := ← m.defaulted "oneway" false bool }

def ServiceDef.reader : Reader ServiceDef :=
  record ["doc", "methods"] fun m => do
    return {
      doc := ← m.optional "doc" string
      methods := ← m.defaulted "methods" [] (list MethodDef.reader) }

def StructDef.reader : Reader StructDef :=
  record ["doc", "fields"] fun m => do
    return {
      doc := ← m.optional "doc" string
      fields := ← m.defaulted "fields" [] (list FieldDef.reader) }

def EnumDef.reader : Reader EnumDef :=
  record ["doc", "constants"] fun m => do
    return {
      doc := ← m.optional "doc" string
      constants := ← m.defaulted "constants" [] (list string) }

def ExceptionDef.reader : Reader ExceptionDef :=
  record ["doc", "fields"] fun m => do
    return {
      doc := ← m.optional "doc" string
      fields := (← m.optional "fields" (list FieldDef.reader)) }

def RegistryFile.reader : Reader RegistryFile :=
  record ["version", "namespace", "services", "structs", "unions", "enums", "exceptions",
      "typedefs", "docstrings"] fun m => do
    return {
      version := ← m.defaulted "version" supportedVersion (nat 0xFFFFFFFF)
      namespaceName := ← m.defaulted "namespace" "" string
      services := ← m.defaulted "services" ∅ (table ServiceDef.reader)
      structs := ← m.defaulted "structs" ∅ (table StructDef.reader)
      unions := ← m.defaulted "unions" ∅ (table StructDef.reader)
      enums := ← m.defaulted "enums" ∅ (table EnumDef.reader)
      exceptions := ← m.defaulted "exceptions" ∅ (table ExceptionDef.reader)
      typedefs := ← m.defaulted "typedefs" ∅ (table string)
      docstrings := ← m.defaulted "docstrings" ∅ (table string) }

end ThriftCatalog
