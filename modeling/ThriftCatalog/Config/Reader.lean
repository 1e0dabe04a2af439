import ThriftCatalog.Config.Basic

/-! Configurations from document trees. -/
namespace ThriftCatalog

open Document Document.Reader

def OutputConfig.reader : Reader OutputConfig :=
  record ["path", "format", "pretty"] fun m => do
    let d : OutputConfig := {}
    return {
      path := ← m.defaulted "path" d.path (option string)
      format := ← m.defaulted "format" d.format (word OutputFormat.ofWord?)
      pretty := ← m.defaulted "pretty" d.pretty bool }

def GenerationConfig.reader : Reader GenerationConfig :=
  record ["fail_fast", "max_depth", "encode_samples"] fun m => do
    let d : GenerationConfig := {}
    let failFast ← m.defaulted "fail_fast" d.options.failFast bool
    let maxDepth ← m.defaulted "max_depth" d.options.maxDepth (nat 0xFFFFFFFFFFFFFFFF)
    let encodeSamples ← m.defaulted "encode_samples" d.encodeSamples bool
    return { options := { failFast, maxDepth }, encodeSamples }

def BindingConfig.reader : Reader BindingConfig :=
  record ["host", "path", "prefix", "default_format", "allowed_formats", "services"] fun m => do
    let d : BindingConfig := { services := ∅ }
    return {
      host := ← m.defaulted "host" d.host string
      path := ← m.defaulted "path" d.path (option string)
      pathStart := ← m.defaulted "prefix" d.pathStart (option string)
      defaultFormat := ← m.defaulted "default_format" d.defaultFormat (word Format.ofWord?)
      allowedFormats := ←
        m.defaulted "allowed_formats" d.allowedFormats (option (list (word Format.ofWord?)))
      services := ← m.required "services" (table (list string)) }

def Config.reader : Reader Config :=
  record ["registries", "output", "generation", "bindings", "example_headers", "sample_requests"]
    fun m => do
      let d : Config := {}
      return {
        registries := ← m.defaulted "registries" d.registries (list string)
        output := ← m.defaulted "output" d.output OutputConfig.reader
        generation := ← m.defaulted "generation" d.generation GenerationConfig.reader
        bindings := ← m.defaulted "bindings" d.bindings (list BindingConfig.reader)
        exampleHeaders := ←
          m.defaulted "example_headers" d.exampleHeaders (table (list (table string)))
        sampleRequests := ← m.defaulted "sample_requests" d.sampleRequests (table free) }

end ThriftCatalog
