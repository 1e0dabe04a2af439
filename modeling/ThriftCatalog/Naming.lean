/-! How names are put together and taken apart. -/
namespace ThriftCatalog

/-- The key under which the doc of a member is filed; the empty namespace leaves the member bare. -/
def docKey (scope member : String) : String :=
  if scope = "" then member else scope ++ "." ++ member

/-- The service in a reference to one of its interfaces: the text before the first dollar sign. -/
def interfaceService (interface : String) : String :=
  String.ofList (interface.toList.takeWhile (· ≠ '$'))

/-- The full name within a namespace. A name with a dot is full already. -/
def qualify (scope name : String) : String :=
  if name.toList.contains '.' || scope = "" then name else scope ++ "." ++ name

theorem qualify_of_dot {scope name : String} (h : '.' ∈ name.toList) : qualify scope name = name := by
  simp [qualify, h]

theorem mem_qualify_of_ne {scope name : String} (h : scope ≠ "") : '.' ∈ (qualify scope name).toList := by
  unfold qualify
  split
  · next h' => simpa [h] using h'
  · simp

/-- A second qualification changes nothing. -/
theorem qualify_qualify (scope name : String) : qualify scope (qualify scope name) = qualify scope name := by
  by_cases h : scope = ""
  · simp [qualify, h]
  · exact qualify_of_dot (mem_qualify_of_ne h)

end ThriftCatalog
