/-! The text of a configuration to start from. -/
namespace ThriftCatalog.Config

def templateLines : List String :=
  ["# tdoc configuration",
   "registries:",
   "  - thrift-metadata.yaml",
   "",
   "output:",
   "  # path: thrift-spec.json   # stdout when unset",
   "  format: json               # json | yaml",
   "  pretty: true",
   "",
   "generation:",
   "  fail_fast: false           # abort on the first failing service",
   "  max_depth: 64              # type nesting limit",
   "  encode_samples: true",
   "",
   "bindings: []",
   "  # - path: /thrift/hello",
   "  #   host: \"*\"",
   "  #   default_format: tbinary           # tbinary | tcompact | tjson | ttext",
   "  #   allowed_formats: [tbinary, tjson]",
   "  #   services:",
   "  #     \"\": [com.example.HelloService$AsyncIface]",
   "",
   "example_headers: \x7b\x7d",
   "  # com.example.HelloService:",
   "  #   - \x7b authorization: \"bearer token\" \x7d",
   "",
   "sample_requests: \x7b\x7d",
   "  # com.example.HelloService.hello_args: \x7b name: world \x7d",
   ""]

/-- Every setting at its default, with examples in comments. -/
def template : String := "\n".intercalate templateLines

end ThriftCatalog.Config
