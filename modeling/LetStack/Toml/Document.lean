import LetStack.Toml.Scalar

/-!
TOML documents: the tables that headings and assignments build up, and the keys in the order in which
they were written. A table that a longer key brings about may be given a heading later, once; any other
name is given a value once, except that an array may be replaced.
-/

namespace LetStack.Toml

/-- Why a text is no document, or not the one that is wanted. -/
structure Error where
  /-- None for a value that no line gives: a table that only longer keys have brought about. -/
  line : Option Nat
  /-- The key that was read last, in writing. -/
  lastKey : Bytes
  message : Bytes
  deriving Repr, Inhabited

/-- The line and the key that an error is about, as far as there are any, and what is wrong. -/
def Error.render (e : Error) : Bytes :=
  let line : List Bytes := e.line.toList.map fun n => "line " ++ Bytes.ofNat n
  let key : List Bytes := if e.lastKey = [] then [] else ["(last key " ++ Text.quote e.lastKey ++ ")"]
  let place := Bytes.join " " (line ++ key)
  "toml: " ++ if place = [] then e.message else place ++ Bytes.ofString ": " ++ e.message

namespace Table

/-- Gives a name a value, in its place if it has one already. -/
def set (t : Table) (name : Bytes) (v : Value) : Table :=
  if (t.lookup name).isSome then t.map fun f => if f.1 = name then (name, v) else f else t ++ [(name, v)]

/-- The table that a value stands for as part of a key: a table, or the last of several. -/
def open? : Value → Option Table
  | .table t => some t
  | .tables ts => ts.getLast?
  | _ => none

/-- The value with its table changed. -/
def reopen (v : Value) (t : Table) : Value :=
  match v with
  | .tables ts => .tables (ts.dropLast ++ [t])
  | _ => .table t

def find? (t : Table) : Key → Option Value
  | [] => some (.table t)
  | k :: ks =>
    match ks, t.lookup k with
    | [], v => v
    | _ :: _, some v => (open? v).bind fun u => find? u ks
    | _ :: _, none => none

/-- Puts a value at a key whose tables are there. -/
def put (t : Table) (v : Value) : Key → Table
  | [] => t
  | k :: ks =>
    match ks with
    | [] => set t k v
    | _ :: _ =>
      match t.lookup k with
      | some w =>
        match open? w with
        | some u => set t k (reopen w (put u v ks))
        | none => t
      | none => t

end Table

structure Document where
  root : Table := []
  /-- Keys in the order of writing. -/
  keys : List Key := []
  /-- Tables that only longer keys have brought about. -/
  implicit : List Key := []
  /-- Whether a key was marked last as an array, and the line of that. -/
  marks : List (Key × Bool × Nat) := []
  deriving Inhabited

namespace Document

def addImplicit (d : Document) (k : Key) : Document := { d with implicit := k :: d.implicit }
def dropImplicit (d : Document) (k : Key) : Document := { d with implicit := d.implicit.filter (· != k) }
def addKey (d : Document) (k : Key) : Document := { d with keys := d.keys ++ [k] }

/-- Marks a name below a key as an array or not; a blank name stands for the key itself. -/
def mark (d : Document) (context : Key) (name : Bytes) (isArray : Bool) (line : Nat) : Document :=
  let k := if name = [] ∧ context ≠ [] then context else context ++ [name]
  { d with marks := (k, isArray, line) :: d.marks.filter (·.1 != k) }

def isArray (d : Document) (k : Key) : Bool := ((d.marks.lookup k).map (·.1)).getD false

/-- The line that gives a key its value, if one does. -/
def lineOf? (d : Document) (k : Key) : Option Nat := (d.marks.lookup k).map (·.2)

/-- The shortest start of a key that has no table. -/
def blocked? (d : Document) (context : Key) : Option Key :=
  ((List.range context.length).map fun n => context.take (n + 1)).find? fun k =>
    (((d.root.find? k).bind Table.open?).isNone)

/-- Gives a name below a key a value, or finds the key that has one already. A table that is there only
because of a longer key stays as it is. -/
def setValue (d : Document) (context : Key) (name : Bytes) (v : Value) : Except Key Document :=
  let k := context ++ [name]
  match d.blocked? context with
  | some blocked => .error blocked
  | none =>
    if (d.root.find? k).isNone then .ok { d with root := d.root.put v k }
    else if d.isArray k then .ok { (d.dropImplicit k) with root := d.root.put v k }
    else if d.implicit.contains k then .ok (d.dropImplicit k)
    else .error k

/-- Makes the tables that lead to a key, or finds the key that is something else. -/
def openParents (d : Document) (seen : Key) : Key → Except Key Document
  | [] => .ok d
  | k :: ks =>
    let key := seen ++ [k]
    let d := if (d.root.find? key).isSome then d
      else { (d.addImplicit key) with root := d.root.put (.table []) key }
    match (d.root.find? key).bind Table.open? with
    | none => .error key
    | some _ => openParents d key ks

/-- Adds an empty table to those at a key, if there can be several. -/
def addTable? (d : Document) (k : Key) : Option Document :=
  match d.root.find? k with
  | none => some { d with root := d.root.put (.tables [[]]) k }
  | some (.tables ts) => some { d with root := d.root.put (.tables (ts ++ [[]])) k }
  | some _ => none

end Document

/-! ## Taking tokens in -/

/-- What the names that are read belong to, with the line where it starts. -/
inductive Naming where
  | heading (several : Bool) (line : Nat)
  | key (line : Nat)
  deriving DecidableEq, Repr

/-- What waits for a value. -/
inductive Waiting where
  /-- An entry; below `outer` the next one is to be read. -/
  | entry (outer : Key)
  | array (line : Nat)
  /-- A table in braces that is assigned to `name` below `outer`, with its fields so far. -/
  | inline (outer : Key) (name : Bytes) (fields : Table) (line : Nat)
  /-- A field of the table that waits next. -/
  | field (line : Nat)

/-- A document while its tokens are taken in. -/
structure Builder where
  doc : Document := {}
  /-- The table that is being filled, and the name in it that is being assigned, blank if there is none. -/
  context : Key := []
  name : Bytes := []
  /-- The line of the last key. -/
  line : Nat := 0
  naming : Option Naming := none
  names : List Bytes := []
  waiting : List Waiting := []

namespace Builder

/-- The key that was read last, in writing; its own name is never quoted. -/
def lastKey (b : Builder) : Bytes :=
  if b.name = [] then keyText b.context
  else if b.context = [] then b.name
  else keyText b.context ++ Bytes.ofString "." ++ b.name

def failAt {α : Type} (b : Builder) (line : Nat) (message : Bytes) : Except Error α :=
  .error ⟨line, b.lastKey, message⟩

/-- Fails with the line of the last key. -/
def fail {α : Type} (b : Builder) (message : Bytes) : Except Error α := b.failAt b.line message

/-- Gives a name in the table that is being filled a value. -/
def setValue (b : Builder) (name : Bytes) (v : Value) : Except Error Builder :=
  match b.doc.setValue b.context name v with
  | .ok doc => .ok { b with doc }
  | .error k => b.fail ("Key '" ++ keyText k ++ "' has already been defined.")

/-- Goes to the table at a key, which is made if it is missing, or to the next one of several. -/
def openTable (b : Builder) (k : Key) (several : Bool) : Except Error Builder := do
  let parents := k.dropLast
  let doc ← match b.doc.openParents [] parents with
    | .ok doc => pure doc
    | .error key => b.fail ("Key '" ++ keyText key ++ "' was already created as a hash.")
  let b := { b with doc, context := parents }
  let b ←
    if several then
      match b.doc.addTable? k with
      | some doc => pure { b with doc }
      | none => b.fail ("Key '" ++ keyText k ++ "' was already created and cannot be used as an array.")
    else b.setValue (k.getLastD []) (.table [])
  return { b with context := k }

/-- Goes down to the tables of names, one after the other. -/
def openNames (b : Builder) : List Bytes → Except Error Builder
  | [] => pure b
  | k :: ks => do
    let key := b.context ++ [k]
    let b ← openTable { b with doc := b.doc.addImplicit key } key false
    b.openNames ks

/-- Gives the name that is being assigned its value, which is put down to the given line. -/
def assign (b : Builder) (v : Value) (line : Nat) : Except Error Builder := do
  let b ← b.setValue b.name v
  let isArray := match v with
    | .array => true
    | _ => false
  return { b with doc := b.doc.mark b.context b.name isArray line }

/-- Hands a value to what waits for it; an array does not keep its items. -/
def finish (b : Builder) (v : Value) (line : Nat) : Except Error Builder :=
  match b.waiting with
  | .entry outer :: waiting => do
    let b ← b.assign v line
    return { b with context := outer, name := [], waiting }
  | .field keyLine :: .inline outer name fields start :: waiting => do
    let b ← b.assign v keyLine
    return { b with
      context := outer ++ [name], waiting := .inline outer name (Table.set fields b.name v) start :: waiting }
  | _ => .ok b

/-- The start of a table in braces. -/
def openInline (b : Builder) (line : Nat) : Except Error Builder := do
  let here := b.context ++ [b.name]
  let several := match b.waiting with
    | .array _ :: _ => true
    | _ => false
  let opened := { b with context := here, name := [], doc := b.doc.addImplicit here }
  let opened ← opened.openTable here several
  return { opened with waiting := .inline b.context b.name [] line :: b.waiting }

/-- The end of the names of a heading or a key. -/
def endNames (b : Builder) : Except Error Builder :=
  let names := b.names
  let named := { b with naming := none, names := [] }
  match b.naming with
  | some (.heading several line) => do
    let b ← named.openTable names several
    return { b with doc := (b.doc.mark b.context [] false line).addKey names }
  | some (.key line) => do
    let outer := b.context
    let b ← openNames { named with name := names.getLastD [] } names.dropLast
    let waits : Waiting := match b.waiting with
      | .inline .. :: _ => .field line
      | _ => .entry outer
    return { b with doc := b.doc.addKey (b.context ++ [b.name]), waiting := waits :: b.waiting }
  | none => .ok named

def takeValue (b : Builder) (t : Token) (v : Value) : Except Error Builder :=
  match b.naming with
  | some _ =>
    let name := match v with
      | .text s => s
      | _ => []
    .ok { b with names := b.names ++ [name] }
  | none => b.finish v t.line

def take (b : Builder) (t : Token) : Except Error Builder :=
  match t.kind with
  | .heading several => .ok { b with naming := some (.heading several t.line), names := [] }
  | .keyStart => .ok { b with naming := some (.key t.line), names := [] }
  | .headingEnd | .keyEnd => b.endNames
  | .arrayStart =>
    .ok { b with doc := b.doc.mark b.context b.name true t.line, waiting := .array t.line :: b.waiting }
  | .arrayEnd =>
    match b.waiting with
    | .array line :: waiting => { b with waiting }.finish .array line
    | _ => .ok b
  | .inlineStart => b.openInline t.line
  | .inlineEnd =>
    match b.waiting with
    | .inline outer name fields line :: waiting =>
      { b with context := outer, name, waiting }.finish (.table fields) line
    | _ => .ok b
  | _ =>
    let b := if b.naming.isSome ∧ b.names = [] then { b with line := t.line } else b
    match t.value? with
    | some (.ok v) => b.takeValue t v
    | some (.error message) => b.failAt t.line message
    | none => .ok b

end Builder

namespace Document

/-- Without a mark of the byte order at the start. -/
def dropMark (x : Bytes) : Bytes :=
  match x with
  | 0xFF :: 0xFE :: rest | 0xFE :: 0xFF :: rest | 0xEF :: 0xBB :: 0xBF :: rest => rest
  | _ => x

/-- Reads a document. A zero among the first bytes is a sign of another encoding. -/
def read (x : Bytes) : Except Error Document := do
  let x := dropMark x
  if (x.take 6).contains 0 then
    throw ⟨some 1, [], "files cannot contain NULL bytes; probably using UTF-16; TOML files must be UTF-8"⟩
  let (tokens, fault) := tokens x
  let b ← tokens.foldlM Builder.take {}
  match fault with
  | none => return b.doc
  | some f => b.failAt f.line f.message

end Document

end LetStack.Toml
