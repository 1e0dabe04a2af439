import ThriftCatalog.Document.Reader
import ThriftCatalog.Yaml.Token.Lexer

/-! Document trees from YAML tokens, by a machine that holds the collections still open and takes one token at a
time. An empty node is a token that is not there, so a token may first complete what comes before it. -/
namespace ThriftCatalog.Yaml

open Document

/-- What may stand before a node. -/
structure Properties where
  anchor : Option Nat := none
  tag : Option Tag := none
deriving Repr

namespace Properties

def isEmpty (p : Properties) : Bool := p.anchor.isNone && p.tag.isNone

/-- The node with its anchor. -/
def attach (p : Properties) (n : Node) : Node :=
  match p.anchor with
  | some id => .anchored id n
  | none => n

def scalar (p : Properties) (text : String) (style : ScalarStyle) : Node :=
  p.attach (.scalar ⟨text, style, p.tag⟩)

/-- The node of which nothing but properties is written. -/
def void (p : Properties) : Node := p.scalar "" .plain

end Properties

inductive ListKind where
  | block
  /-- Items under a key that are not indented. -/
  | hanging
  | flow
deriving DecidableEq, Repr

inductive MapKind where
  | block
  | flow
  /-- A mapping with one entry, written without braces in a flow sequence. -/
  | single
deriving DecidableEq, Repr

/-- A collection still open, with what it holds so far, last first. -/
inductive Frame where
  | items (kind : ListKind) (p : Properties) (before : List Node)
  /-- The next node is a key. It is `bare` if no mark and no candidate came before it: no value can follow. -/
  | key (kind : MapKind) (p : Properties) (before : List (Node × Node)) (bare : Bool)
  /-- The next node is the value of a key. -/
  | value (kind : MapKind) (p : Properties) (before : List (Node × Node)) (key : Node)

/-- What comes next. -/
inductive Phase where
  /-- The document has not begun; what is known of its directives. -/
  | start (version : Bool) (directives : Bool)
  /-- The beginning of the document was marked. -/
  | marked
  /-- A node, of which these properties have been read. -/
  | node (p : Properties)
  /-- An entry or the end of a flow collection. -/
  | first
  /-- A further entry or the end of a collection. -/
  | next
  /-- The colon after a key. -/
  | colon
  /-- The document is complete. -/
  | done (n : Node)

structure Builder where
  handles : Table Tag := ∅
  /-- The numbers of the anchors that are known. -/
  anchors : Table Nat := ∅
  stack : List Frame := []
  phase : Phase := .start false false

namespace Builder

def standardHandles : List (String × Tag) := [("!", .ofString "!"), ("!!", .core "")]

def withStandardHandles (handles : Table Tag) : Table Tag :=
  handles.insertAll (standardHandles.filter fun h => !handles.contains h.1)

def complete (n : Node) : List Frame → List Frame × Phase
  | [] => ([], .done n)
  | .items kind p before :: stack => (.items kind p (n :: before) :: stack, .next)
  | .key kind p before bare :: stack =>
    if bare then
      (.key kind p ((n, Properties.void {}) :: before) false :: stack, .next)
    else (.value kind p before n :: stack, .colon)
  | .value .single p _ key :: stack => complete (p.attach (.map p.tag [(key, n)])) stack
  | .value kind p before key :: stack => (.key kind p ((key, n) :: before) false :: stack, .next)

def finish (b : Builder) (n : Node) (stack : List Frame) : Builder :=
  let (stack, phase) := complete n stack
  { b with stack, phase }

/-- Whether a token shows that the next node of a collection is not there. -/
def showsAbsence : Frame → Token → Bool
  | .items .block _ _, t => t = .entry || t = .blockEnd
  | .items .hanging _ _, t => t = .entry || t = .key || t = .value || t = .blockEnd
  | .key .block _ _ _, t | .value .block _ _ _, t => t = .key || t = .value || t = .blockEnd
  | .key .flow _ _ bare, t => !bare && (t = .value || t = .comma || t = .flowMappingEnd)
  | .value .flow _ _ _, t => t = .comma || t = .flowMappingEnd
  | .value .single _ _ _, t => t = .comma || t = .flowSequenceEnd
  | _, _ => false

def allowsHanging : List Frame → Bool
  | .key .block _ _ _ :: _ | .value .block _ _ _ :: _ => true
  | _ => false

/-- Whether a token begins a node, or belongs to the properties before it. -/
def beginsNode (stack : List Frame) (p : Properties) : Token → Bool
  | .alias _ => p.isEmpty
  | .anchor _ => p.anchor.isNone
  | .tag _ _ => p.tag.isNone
  | .scalar _ _ | .blockSequence | .blockMapping | .flowSequence | .flowMapping => true
  | .entry => allowsHanging stack
  | _ => false

/-- The tokens that cannot follow the beginning of a document without ending it. -/
def endsContent : Token → Bool
  | .versionDirective _ _ | .tagDirective _ _ | .documentStart | .documentEnd => true
  | _ => false

def settleNode (b : Builder) (t : Token) : Builder :=
  match b.phase with
  | .start false false =>
    if endsContent t then b
    else { b with handles := withStandardHandles ∅, phase := .node {} }
  | .marked => if endsContent t then b.finish (Properties.void {}) [] else { b with phase := .node {} }
  | .node p =>
    if beginsNode b.stack p t then b
    else if !p.isEmpty || b.stack.head?.any (showsAbsence · t) then b.finish p.void b.stack
    else b
  | _ => b

def settleValue (b : Builder) (t : Token) : Builder :=
  match b.phase with
  | .colon => if t = .value then b else b.finish (Properties.void {}) b.stack
  | _ => b

def settleHanging (b : Builder) (t : Token) : Builder :=
  match b.phase, b.stack with
  | .next, .items .hanging p before :: stack =>
    if t = .entry then b else b.finish (p.attach (.list p.tag before.reverse)) stack
  | _, _ => b

/-- Completes all that is complete when a certain token comes next. -/
def settle (b : Builder) (t : Token) : Builder :=
  (((b.settleNode t).settleValue t).settleHanging t).settleValue t

def resolveTag (b : Builder) (handle : String) (suffix : Tag) : Option Tag :=
  if handle = "" then some suffix else (b.handles.get? handle).map (· ++ suffix)

def openFrame (b : Builder) (frame : Frame) (phase : Phase) : Builder :=
  { b with stack := frame :: b.stack, phase }

def beginNode (b : Builder) (p : Properties) : Token → Option Builder
  | .alias name =>
    if p.isEmpty then (b.anchors.get? name).map fun id => b.finish (.alias id) b.stack else none
  | .anchor name =>
    let id := b.anchors.size
    some { b with
      anchors := b.anchors.insert name id
      phase := .node { p with anchor := some id } }
  | .tag handle suffix => do
    return { b with phase := .node { p with tag := some (← b.resolveTag handle suffix) } }
  | .scalar text style => some (b.finish (p.scalar text style) b.stack)
  | .blockSequence => some (b.openFrame (.items .block p []) .next)
  | .blockMapping => some (b.openFrame (.key .block p [] false) .next)
  | .flowSequence => some (b.openFrame (.items .flow p []) .first)
  | .flowMapping => some (b.openFrame (.key .flow p [] false) .first)
  | .entry =>
    if allowsHanging b.stack then some (b.openFrame (.items .hanging p []) (.node {})) else none
  | t =>
    -- The key of a single entry is missing: the token that shows it counts for nothing else.
    match b.stack with
    | .key .single p' before _ :: stack =>
      if p.isEmpty && (t = .value || t = .comma || t = .flowSequenceEnd) then
        some { b with stack := .value .single p' before (Properties.void {}) :: stack, phase := .colon }
      else none
    | _ => none

def flowEntry (b : Builder) (t : Token) : Option Builder :=
  match b.stack with
  | .items .flow p before :: stack =>
    if t = .flowSequenceEnd then some (b.finish (p.attach (.list p.tag before.reverse)) stack)
    else if t = .key then some (b.openFrame (.key .single {} [] false) (.node {}))
    else beginNode b {} t
  | .key .flow p before _ :: stack =>
    if t = .flowMappingEnd then some (b.finish (p.attach (.map p.tag before.reverse)) stack)
    else if t = .key then some { b with phase := .node {} }
    else beginNode { b with stack := .key .flow p before true :: stack } {} t
  | _ => none

def nextEntry (b : Builder) (t : Token) : Option Builder :=
  match b.stack with
  | .items .block p before :: stack =>
    if t = .entry then some { b with phase := .node {} }
    else if t = .blockEnd then some (b.finish (p.attach (.list p.tag before.reverse)) stack)
    else none
  | .items .hanging _ _ :: _ => if t = .entry then some { b with phase := .node {} } else none
  | .key .block p before _ :: stack =>
    if t = .key then some { b with phase := .node {} }
    else if t = .blockEnd then some (b.finish (p.attach (.map p.tag before.reverse)) stack)
    else none
  | .items .flow _ _ :: _ =>
    if t = .comma then some { b with phase := .first }
    else if t = .flowSequenceEnd then b.flowEntry t
    else none
  | .key .flow _ _ _ :: _ =>
    if t = .comma then some { b with phase := .first }
    else if t = .flowMappingEnd then b.flowEntry t
    else none
  | _ => none

def directive (b : Builder) (version : Bool) : Token → Option Builder
  | .versionDirective major minor =>
    if version || major ≠ 1 || (minor ≠ 1 && minor ≠ 2) then none
    else some { b with phase := .start true true }
  | .tagDirective handle uri =>
    if b.handles.contains handle then none
    else some { b with handles := b.handles.insert handle uri, phase := .start version true }
  | .documentStart => some { b with handles := withStandardHandles b.handles, phase := .marked }
  | _ => none

def step (b : Builder) (t : Token) : Option Builder :=
  let b := b.settle t
  match b.phase with
  | .start version _ => b.directive version t
  | .marked => none
  | .node p => b.beginNode p t
  | .first => b.flowEntry t
  | .next => b.nextEntry t
  | .colon => if t = .value then some { b with phase := .node {} } else none
  | .done _ => if t = .documentEnd then some b else none

def result (b : Builder) : Option Node :=
  match b.phase, b.stack with
  | .start false false, _ | .marked, _ => some (Properties.void {})
  | .node p, [] => if p.isEmpty then none else some p.void
  | .done n, _ => some n
  | _, _ => none

end Builder

end Yaml

namespace Document.Node

/-- The tree of a YAML text with one document at most; an empty text is an empty node. -/
def ofYaml? (s : String) : Option Node := do
  let tokens ← Yaml.Token.ofChars? s.toList
  let b ← tokens.foldlM Yaml.Builder.step {}
  b.result

mutual

/-- How many things happen when a tree is read from left to right. -/
def eventCount : Node → Nat
  | .anchored _ n => eventCount n
  | .list _ items => eventCountList items + 2
  | .map _ entries => eventCountEntries entries + 2
  | _ => 1

def eventCountList : List Node → Nat
  | [] => 0
  | n :: ns => eventCount n + eventCountList ns

def eventCountEntries : List (Node × Node) → Nat
  | [] => 0
  | (k, v) :: es => eventCount k + eventCount v + eventCountEntries es

end

mutual

/-- The nodes with anchors, a node before its parts. -/
def anchorTargets : Node → List (Nat × Node)
  | .anchored id n => (id, n) :: anchorTargets n
  | .list _ items => anchorTargetsList items
  | .map _ entries => anchorTargetsEntries entries
  | _ => []

def anchorTargetsList : List Node → List (Nat × Node)
  | [] => []
  | n :: ns => anchorTargets n ++ anchorTargetsList ns

def anchorTargetsEntries : List (Node × Node) → List (Nat × Node)
  | [] => []
  | (k, v) :: es => anchorTargets k ++ anchorTargets v ++ anchorTargetsEntries es

end

end Document.Node

namespace Document

/-- For each event of a text so many aliases may be followed. -/
def aliasesPerEvent : Nat := 100

/-- Reads a whole YAML text: at most 128 collections may be nested. -/
def readYaml? {α : Type} (r : Reader α) (node : Node) : Option α :=
  let targets := node.anchorTargets.reverse
  ((r 128 node).run ⟨false, fun id => targets.lookup id⟩).run' (aliasesPerEvent * node.eventCount)

end Document

end ThriftCatalog
