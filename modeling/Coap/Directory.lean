import Coap.Request
import Coap.Response

/-!
# Directories of resources

A directory serves fixed resources, each at the normal form of a path, to requests that want to
read them. At one path of its own, `wellKnownCore`, it lists what it holds. The entries stand in
ascending order of their paths, one for each path, and this is part of the type.

* `find?_insert_self`, `find?_insert_of_ne`: which resource is at a path after an insertion.
-/

namespace Coap

/-- What a directory serves at a path. -/
structure Resource where
  payload : Bytes
  mediaType : Nat
  deriving DecidableEq

/-- Puts a resource at a path, in the place of one that is there. -/
def insertEntry (path : String) (resource : Resource) :
    List (String × Resource) → List (String × Resource)
  | [] => [(path, resource)]
  | entry :: rest =>
    if path < entry.1 then (path, resource) :: entry :: rest
    else if entry.1 < path then entry :: insertEntry path resource rest
    else (path, resource) :: rest

/-- An insertion brings in no other entry than its own. -/
theorem path_of_mem_insertEntry {path : String} {resource : Resource}
    {entries : List (String × Resource)} {entry : String × Resource}
    (h : entry ∈ insertEntry path resource entries) :
    entry = (path, resource) ∨ entry ∈ entries := by
  induction entries with
  | nil => exact .inl (List.mem_singleton.1 h)
  | cons first rest ih =>
    rw [insertEntry] at h
    split at h
    · exact List.mem_cons.1 h
    split at h
    · rcases List.mem_cons.1 h with rfl | h
      · exact .inr List.mem_cons_self
      · exact (ih h).imp_right (List.mem_cons_of_mem _)
    · exact (List.mem_cons.1 h).imp_right (List.mem_cons_of_mem _)

/-- Entries stay in the order of their paths. -/
theorem sorted_insertEntry {path : String} {resource : Resource}
    {entries : List (String × Resource)} (h : entries.Pairwise fun a b => a.1 < b.1) :
    (insertEntry path resource entries).Pairwise fun a b => a.1 < b.1 := by
  induction entries with
  | nil => simp [insertEntry]
  | cons first rest ih =>
    rw [List.pairwise_cons] at h
    rw [insertEntry]
    split
    · -- The new entry comes first; it is before the old ones as the first of them is behind it.
      rename_i hlt
      refine List.pairwise_cons.2 ⟨fun b hb => ?_, List.pairwise_cons.2 h⟩
      rcases List.mem_cons.1 hb with rfl | hb
      · exact hlt
      · exact String.lt_trans hlt (h.1 b hb)
    split
    · -- The first entry stays, and the new one comes somewhere behind it.
      rename_i hlt
      refine List.pairwise_cons.2 ⟨fun b hb => ?_, ih h.2⟩
      rcases path_of_mem_insertEntry hb with rfl | hb
      · exact hlt
      · exact h.1 b hb
    · -- The path is the one of the first entry, whose resource is replaced.
      rename_i hle hge
      have : path = first.1 := String.le_antisymm (String.not_lt.1 hge) (String.not_lt.1 hle)
      exact List.pairwise_cons.2 ⟨fun b hb => this ▸ h.1 b hb, h.2⟩

/-- A directory of resources. -/
structure Directory where
  entries : List (String × Resource)
  sorted : entries.Pairwise fun a b => a.1 < b.1

namespace Directory

/-- The directory that holds nothing. -/
def empty : Directory := ⟨[], .nil⟩

instance : EmptyCollection Directory := ⟨empty⟩

instance : Inhabited Directory := ⟨empty⟩

/-- The path at which a directory lists what it holds. -/
def wellKnownCore : String := "/.well-known/core"

/-- The media type of the listing. -/
def linkFormat : Nat := 40

/-- Puts a resource at a path, in the place of one that is there. -/
def insert (d : Directory) (path : String) (resource : Resource) : Directory :=
  ⟨insertEntry (Path.normal path) resource d.entries, sorted_insertEntry d.sorted⟩

/-- The directory of some resources, a later one taking the place of an earlier one. -/
def ofList (resources : List (String × Resource)) : Directory :=
  resources.foldl (fun d entry => d.insert entry.1 entry.2) ∅

/-- How many resources there are. -/
def size (d : Directory) : Nat := d.entries.length

/-- The resource at a path in normal form. -/
def find? (d : Directory) (path : String) : Option Resource :=
  (d.entries.find? fun entry => entry.1 == path).map Prod.snd

/-- One line of the listing. -/
def link (entry : String × Resource) : String := s!"<{entry.1}>;ct={entry.2.mediaType}"

/-- The listing: the path and media type of every resource. -/
def listing (d : Directory) : String := ",".intercalate (d.entries.map link)

/-- The response to a request. Only reading is allowed; the listing comes before a resource at
    the same path. -/
def respond (d : Directory) (r : Request) : Except Fault Response :=
  if r.message.code ≠ .get then Response.make .methodNotAllowed
  else if r.path = wellKnownCore then Response.content (Text.bytes d.listing) linkFormat
  else
    match d.find? r.path with
    | some resource => Response.content resource.payload resource.mediaType
    | none => Response.make .notFound

/-! ### What an insertion changes -/

/-- A path that was inserted holds the resource of the insertion. -/
theorem find?_insertEntry_self (path : String) (resource : Resource)
    (entries : List (String × Resource)) :
    (insertEntry path resource entries).find? (fun entry => entry.1 == path) =
      some (path, resource) := by
  induction entries with
  | nil => simp [insertEntry]
  | cons first rest ih =>
    rw [insertEntry]
    split
    · simp
    split
    · rename_i hlt
      have : first.1 ≠ path := fun h => String.lt_irrefl path (h ▸ hlt)
      simp [this, ih]
    · simp

/-- The other paths hold what they did before. -/
theorem find?_insertEntry_of_ne {path other : String} (h : other ≠ path) (resource : Resource)
    (entries : List (String × Resource)) :
    (insertEntry path resource entries).find? (fun entry => entry.1 == other) =
      entries.find? (fun entry => entry.1 == other) := by
  induction entries with
  | nil => simp [insertEntry, h.symm]
  | cons first rest ih =>
    rw [insertEntry]
    split
    · simp [List.find?_cons, h.symm]
    split
    · rw [List.find?_cons, List.find?_cons, ih]
    · rename_i hle hge
      have : path = first.1 := String.le_antisymm (String.not_lt.1 hge) (String.not_lt.1 hle)
      simp [h.symm, ← this]

/-- After an insertion the resource is at the path. -/
theorem find?_insert_self (d : Directory) (path : String) (resource : Resource) :
    (d.insert path resource).find? (Path.normal path) = some resource := by
  rw [find?, insert, find?_insertEntry_self, Option.map_some]

/-- An insertion changes nothing at other paths. -/
theorem find?_insert_of_ne {path other : String} (h : other ≠ Path.normal path) (d : Directory)
    (resource : Resource) : (d.insert path resource).find? other = d.find? other := by
  rw [find?, insert, find?_insertEntry_of_ne h, find?]

end Directory

end Coap
