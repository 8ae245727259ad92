import PinnedBench.Files.Access

/-!
# A file system in memory

A `Store` holds directories and files under routes, the lists of names that lead to them from the
root. Paths are resolved name by name, from the root or from the current directory: what a name is
looked up in has to be a directory, a dot stays there, and two dots go up.

`Store.node?` is what stands at a route. All other operations are described by it: writing changes
what stands at one route, and making directories adds directories where nothing stood.
-/

namespace PinnedBench

/-- The names that lead to a place from the root. -/
abbrev Route := List String

/-- What stands at a route. -/
inductive Node where
  /-- A directory. -/
  | directory
  /-- A file with its content. -/
  | file (content : ByteArray)

/-- A file system. -/
structure Store where
  /-- The current directory. -/
  current : Route
  /-- What stands at the routes that are not the root. -/
  nodes : List (Route × Node)

namespace Store

/-- What stands at a route; the root is a directory. -/
def node? (s : Store) (r : Route) : Option Node :=
  if r = [] then some .directory else s.nodes.lookup r

/-- The store with another node at a route. -/
def put (s : Store) (r : Route) (n : Node) : Store :=
  { s with nodes := (r, n) :: s.nodes.filter fun e => e.1 ≠ r }

/-- The store with nothing at a route. -/
def erase (s : Store) (r : Route) : Store :=
  { s with nodes := s.nodes.filter fun e => e.1 ≠ r }

/-- A store that holds a current directory and the directories above it. -/
def ofCurrent (current : Route) : Store where
  current := current
  nodes := (List.range current.length).map fun i => (current.take (i + 1), .directory)

/-! ### Resolving paths -/

/-- The number of bytes that a name may have. -/
def maxName : Nat := 255

/-- The number of bytes that a path stays below. -/
def pathBound : Nat := 4096

/-- The route that names lead to from a route. -/
def walk (s : Store) : Route → List String → Except Refusal Route
  | r, [] => .ok r
  | r, name :: rest =>
    match s.node? r with
    | none => .error .missing
    | some (.file _) => .error .notDirectory
    | some .directory =>
      if name = "" ∨ name = "." then walk s r rest
      -- Above the root there is the root again.
      else if name = ".." then walk s r.dropLast rest
      else if maxName < name.utf8ByteSize then .error .tooLong
      else walk s (r ++ [name]) rest

/-- The route that the parts of a path lead to. -/
def follow (s : Store) (p : Path) (parts : List String) : Except Refusal Route :=
  if p.isEmpty then .error .missing
  else if p.text.toList.contains '\x00' then .error .invalidPath
  else if pathBound ≤ p.text.utf8ByteSize then .error .tooLong
  else s.walk (if p.isAbsolute then [] else s.current) parts

/-- The route of a path. -/
def route (s : Store) (p : Path) : Except Refusal Route := s.follow p p.parts

/-! ### Operations -/

/-- Whether there is something at a path. -/
def present (s : Store) (p : Path) : Bool :=
  match s.route p with
  | .ok r => (s.node? r).isSome
  | .error _ => false

/-- The content of the file at a path. -/
def read (s : Store) (p : Path) : Except Refusal ByteArray := do
  match s.node? (← s.route p) with
  | some (.file content) => .ok content
  | some .directory => .error .isDirectory
  | none => .error .missing

/-- The store with a content for the file at a path. -/
def write (s : Store) (p : Path) (content : ByteArray) : Except Refusal Store := do
  let r ← s.route p
  match s.node? r with
  | some .directory => .error .isDirectory
  | _ => .ok (s.put r (.file content))

/-- Whether there is a directory at a path. -/
def isDirectory (s : Store) (p : Path) : Bool :=
  match s.route p with
  | .ok r =>
    match s.node? r with
    | some .directory => true
    | _ => false
  | .error _ => false

/-- The parts of a path without the empty ones at the end. -/
def partsToMake (p : Path) : List String := (p.parts.reverse.dropWhile (· = "")).reverse

/-- The store with a new directory at a path. -/
def makeDirectory (s : Store) (p : Path) : Except Refusal Store := do
  let r ← s.follow p (partsToMake p)
  match s.node? r with
  | some _ => .error .alreadyThere
  | none => .ok (s.put r .directory)

/-- The store with a directory at a path; one that is there already is kept. -/
def ensureDirectory (s : Store) (p : Path) : Except Refusal Store :=
  match s.makeDirectory p with
  | .ok s => .ok s
  | .error e => if s.isDirectory p then .ok s else .error e

/-- The store with a directory at a path and those above it, `fuel` bounding their number. -/
def ensureFrom (s : Store) : Nat → Path → Except Refusal Store
  | 0, _ => .error .tooLong
  | fuel + 1, p =>
    if p.isEmpty then .ok s
    else
      match s.ensureDirectory p with
      | .ok s => .ok s
      -- Only a directory that is missing above is made first.
      | .error .missing =>
        match p.parent? with
        | none => .error .missing
        | some above => do (← ensureFrom s fuel above).ensureDirectory p
      | .error e => .error e

/-- The store with a directory at a path and those above it. -/
def makeDirectories (s : Store) (p : Path) : Except Refusal Store :=
  s.ensureFrom (p.text.length + 1) p

/-- The store without the file at a path. -/
def remove (s : Store) (p : Path) : Except Refusal Store := do
  let r ← s.route p
  match s.node? r with
  | some (.file _) => .ok (s.erase r)
  | some .directory => .error .isDirectory
  | none => .error .missing

/-- The paths of all files below the current directory, in order. -/
def listing (s : Store) : List String :=
  (s.nodes.filterMap fun (r, n) =>
    match n with
    | .file _ =>
      if s.current.isPrefixOf r then some ("/".intercalate (r.drop s.current.length)) else none
    | .directory => none).mergeSort

/-! ### What operations change -/

@[simp]
theorem node?_nil (s : Store) : s.node? [] = some .directory := rfl

@[simp]
theorem current_put (s : Store) (r : Route) (n : Node) : (s.put r n).current = s.current := rfl

/-- Dropping one key does not change what stands under another one. -/
theorem lookup_filter_ne {r q : Route} (h : q ≠ r) (nodes : List (Route × Node)) :
    (nodes.filter fun e => e.1 ≠ r).lookup q = nodes.lookup q := by
  induction nodes with
  | nil => rfl
  | cons e rest ih =>
    obtain ⟨k, n⟩ := e
    by_cases hk : k = r
    · subst hk
      rw [List.filter_cons_of_neg (by simp), ih, List.lookup_cons]
      have : (q == k) = false := by simpa using h
      rw [this]
    · rw [List.filter_cons_of_pos (by simpa using hk), List.lookup_cons, List.lookup_cons, ih]

/-- A node that is put stands at its route. -/
theorem node?_put_self {s : Store} {r : Route} {n : Node} (h : r ≠ []) :
    (s.put r n).node? r = some n := by
  simp [node?, put, h]

/-- A node that is put changes no other route. -/
theorem node?_put_ne {s : Store} {r q : Route} {n : Node} (h : q ≠ r) :
    (s.put r n).node? q = s.node? q := by
  have hb : (q == r) = false := by simpa using h
  unfold node? put
  split
  · rfl
  · simp only [List.lookup_cons, hb]
    exact lookup_filter_ne h s.nodes

end Store

/-- The operations on a store, an operation that is refused leaving it as it is. -/
instance : Files (StateM Store) where
  present p s := (s.present p, s)
  read p s := (s.read p, s)
  write p content s :=
    match s.write p content with
    | .ok s' => (.ok (), s')
    | .error e => (.error e, s)
  makeDirectories p s :=
    match s.makeDirectories p with
    | .ok s' => (.ok (), s')
    | .error e => (.error e, s)

end PinnedBench
