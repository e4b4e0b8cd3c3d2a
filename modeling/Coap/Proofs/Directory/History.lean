import Coap.Proofs.Directory.Placement
import Coap.Proofs.Text.Order

/-!
# What a directory remembers

A directory comes from resources that were put at paths one after the other, and the same path can
be spelled in many ways. All that counts is which resource was put last at each normal form
(`Directory.latest?`, told from the history alone): a directory is determined by its lookups, and
they are these. Whatever is put at the path of the listing is listed but never served.

* `Directory.find?_ofList`: a lookup finds what was put last at the path;
* `Directory.eq_of_find?_eq`: a directory is determined by its lookups;
* `Directory.answers_ofList`: the answer to a request, told from the history;
* `Directory.exists_lists_ofList`: the listing, told from the history;
* `Directory.history`: both, the size, and that nothing but the last resource at each path counts.
-/

namespace Coap

/-- A media type of more than two bytes cannot be written. -/
theorem Response.content_of_lt (payload : Bytes) {mediaType : Nat} (h : 65535 < mediaType) :
    content payload mediaType =
      .error (.option .contentType (.length (BigEndian.width mediaType))) := by
  have hwidth : ¬ Opt.Name.contentType.Admits (BigEndian.width mediaType) := by
    rintro ⟨-, hmax⟩
    exact absurd (BigEndian.width_le_iff.1 hmax) (Nat.not_lt.2 h)
  have hformat : Opt.Name.contentType.format = .uint := rfl
  have hmade : Opt.uint .contentType mediaType =
      .error (.option .contentType (.length (BigEndian.width mediaType))) := by
    rw [Opt.uint, dif_pos hformat, dif_neg hwidth]
  let base : Response := ⟨.ofHeader none .content none, false, rfl⟩
  change (base.setContentType mediaType).toExcept.map (·.setPayload payload) = _
  rw [setContentType, hmade]
  rfl

namespace Directory

/-! ### The history of a directory -/

/-- The resource that was put last at a path in normal form. -/
def latest? (inserts : List (String × Resource)) (path : String) : Option Resource :=
  ((inserts.filter fun entry => Path.normal entry.1 = path).getLast?).map Prod.snd

/-- One more insertion counts for its own path. -/
theorem latest?_concat (inserts : List (String × Resource)) (entry : String × Resource)
    (path : String) :
    latest? (inserts ++ [entry]) path =
      if Path.normal entry.1 = path then some entry.2 else latest? inserts path := by
  rw [latest?, List.filter_append, List.filter_singleton]
  by_cases h : Path.normal entry.1 = path
  · simp [h]
  · simp [h, latest?]

/-- There is a latest resource just for the paths that were inserted. -/
theorem exists_latest?_iff {inserts : List (String × Resource)} {path : String} :
    (∃ resource, latest? inserts path = some resource) ↔
      ∃ entry ∈ inserts, Path.normal entry.1 = path := by
  rw [← Option.isSome_iff_exists, latest?, Option.isSome_map, List.getLast?_isSome]
  simp

/-- A history that goes on is the directory of its beginning, and one more insertion. -/
theorem ofList_concat (inserts : List (String × Resource)) (entry : String × Resource) :
    ofList (inserts ++ [entry]) = (ofList inserts).insert entry.1 entry.2 :=
  List.foldl_append ..

/-- A lookup finds what was put last at the path. -/
theorem find?_ofList (inserts : List (String × Resource)) (path : String) :
    (ofList inserts).find? path = latest? inserts path := by
  induction inserts using List.reverseRecOn with
  | nil => rfl
  | append_singleton inserts entry ih =>
    rw [ofList_concat, latest?_concat]
    split_ifs with h
    · rw [← h, find?_insert_self]
    · rw [find?_insert_of_ne (Ne.symm h), ih]

/-! ### Directories and their lookups -/

variable {d d' : Directory}

theorem nodup_paths (d : Directory) : (d.entries.map Prod.fst).Nodup :=
  List.pairwise_map.2 (d.sorted.imp fun h => String.ne_of_lt h)

/-- The entries of a directory are the paths it holds with their resources. -/
theorem mem_entries_iff {path : String} {resource : Resource} :
    (path, resource) ∈ d.entries ↔ d.find? path = some resource := by
  rw [find?, Option.map_eq_some_iff]
  constructor
  · intro h
    obtain ⟨entry, hentry⟩ : ∃ entry, d.entries.find? (fun e => e.1 == path) = some entry := by
      rw [← Option.isSome_iff_exists, List.find?_isSome]
      exact ⟨_, h, beq_self_eq_true path⟩
    -- There is one entry for a path, so the entry that is found is this one.
    have hsame : entry = (path, resource) :=
      List.inj_on_of_nodup_map d.nodup_paths (List.mem_of_find?_eq_some hentry) h
        (by simpa using List.find?_some hentry)
    exact ⟨entry, hentry, congrArg Prod.snd hsame⟩
  · rintro ⟨⟨path', resource'⟩, hentry, rfl⟩
    obtain rfl : path' = path := by simpa using List.find?_some hentry
    exact List.mem_of_find?_eq_some hentry

/-- A directory is determined by its lookups. -/
theorem eq_of_find?_eq (h : ∀ path, d.find? path = d'.find? path) : d = d' := by
  have hperm : d.entries.Perm d'.entries := by
    refine (List.perm_ext_iff_of_nodup (.of_map _ d.nodup_paths) (.of_map _ d'.nodup_paths)).2 ?_
    rintro ⟨path, resource⟩
    rw [mem_entries_iff, mem_entries_iff, h]
  have heq : d.entries = d'.entries :=
    hperm.eq_of_pairwise (fun _ _ _ _ hab hba => absurd hab (String.lt_asymm hba)) d.sorted
      d'.sorted
  obtain ⟨entries, sorted⟩ := d
  obtain ⟨entries', sorted'⟩ := d'
  obtain rfl : entries = entries' := heq
  rfl

/-! ### Answers -/

/-- Whether an answer is a response with a given code, payload and media type. -/
def Gives (answer : Except Fault Response) (code : Code) (payload : Bytes)
    (mediaType? : Option Nat) : Prop :=
  ∃ response, answer = .ok response ∧ response.message.code = code ∧
    response.message.payload = payload ∧ response.contentType? = mediaType?

/-- The answer to a request, told from the history and the listing. -/
structure Answers (inserts : List (String × Resource)) (text : String) (r : Request)
    (answer : Except Fault Response) : Prop where
  /-- Only reading is allowed. -/
  refused : r.message.code ≠ .get → Gives answer .methodNotAllowed [] none
  /-- The listing is there even if something was put at its path. -/
  listed : r.message.code = .get → r.path = wellKnownCore →
    Gives answer .content (Text.bytes text) (some 40)
  found : r.message.code = .get → r.path ≠ wellKnownCore → ∀ resource,
    latest? inserts r.path = some resource → resource.mediaType ≤ 65535 →
      Gives answer .content resource.payload (some resource.mediaType)
  /-- The media type that was put there cannot be written. -/
  failed : r.message.code = .get → r.path ≠ wellKnownCore → ∀ resource,
    latest? inserts r.path = some resource → 65535 < resource.mediaType →
      answer = .error (.option .contentType (.length (BigEndian.width resource.mediaType)))
  missing : r.message.code = .get → r.path ≠ wellKnownCore →
    (∀ entry ∈ inserts, Path.normal entry.1 ≠ r.path) → Gives answer .notFound [] none

/-- A resource that is found is served. -/
theorem respond_eq_of_find? {r : Request} (hcode : r.message.code = .get)
    (hcore : r.path ≠ wellKnownCore) {resource : Resource} (h : d.find? r.path = some resource) :
    d.respond r = Response.content resource.payload resource.mediaType := by
  rw [respond, if_neg (not_not.2 hcode), if_neg hcore, h]

/-- The response is told from the history alone. -/
theorem answers_ofList (inserts : List (String × Resource)) (r : Request) :
    Answers inserts (ofList inserts).listing r ((ofList inserts).respond r) where
  refused hcode := by
    rw [respond, if_pos hcode]
    exact ⟨_, rfl, rfl, rfl, rfl⟩
  listed hcode hcore := by
    rw [respond, if_neg (not_not.2 hcode), if_pos hcore]
    exact Response.exists_content _ (by decide)
  found hcode hcore resource hlatest htype := by
    rw [respond_eq_of_find? hcode hcore ((find?_ofList inserts r.path).trans hlatest)]
    exact Response.exists_content _ (Nat.lt_succ_of_le htype)
  failed hcode hcore resource hlatest htype := by
    rw [respond_eq_of_find? hcode hcore ((find?_ofList inserts r.path).trans hlatest)]
    exact Response.content_of_lt _ htype
  missing hcode hcore hnone := by
    -- Whatever was put at the path would be an entry of the history with this path.
    have hlatest : latest? inserts r.path = none := by
      refine Option.eq_none_iff_forall_ne_some.2 fun resource hsome => ?_
      obtain ⟨entry, hmem, hpath⟩ := exists_latest?_iff.1 ⟨resource, hsome⟩
      exact hnone entry hmem hpath
    rw [respond, if_neg (not_not.2 hcode), if_neg hcore, find?_ofList, hlatest]
    exact ⟨_, rfl, rfl, rfl, rfl⟩

/-! ### The listing -/

/-- Whether paths and media types are what a history leaves: one pair for each path in normal form
    at which something was put, in ascending order of the bytes of the paths, with the media type of
    what was put there last. -/
structure Lists (inserts : List (String × Resource)) (lines : List (String × Nat)) : Prop where
  ascending : lines.Pairwise fun a b => Text.bytes a.1 < Text.bytes b.1
  paths : ∀ path, path ∈ lines.map Prod.fst ↔ ∃ entry ∈ inserts, Path.normal entry.1 = path
  latest : ∀ line ∈ lines, ∃ resource, latest? inserts line.1 = some resource ∧
    line.2 = resource.mediaType

/-- A directory lists the paths that were inserted. -/
theorem mem_paths_ofList_iff {inserts : List (String × Resource)} {path : String} :
    path ∈ (ofList inserts).entries.map Prod.fst ↔
      ∃ entry ∈ inserts, Path.normal entry.1 = path := by
  rw [← exists_latest?_iff, List.mem_map]
  constructor
  · rintro ⟨⟨_, resource⟩, hentry, rfl⟩
    exact ⟨resource, (find?_ofList ..).symm.trans (mem_entries_iff.1 hentry)⟩
  · rintro ⟨resource, hlatest⟩
    exact ⟨(path, resource), mem_entries_iff.2 ((find?_ofList ..).trans hlatest), rfl⟩

/-- The listing has one link for each path, with the media type of what was put there last. -/
theorem exists_lists_ofList (inserts : List (String × Resource)) :
    ∃ lines, Lists inserts lines ∧ (ofList inserts).listing =
      ",".intercalate (lines.map fun line => s!"<{line.1}>;ct={line.2}") := by
  refine ⟨(ofList inserts).entries.map fun entry => (entry.1, entry.2.mediaType), ⟨?_, ?_, ?_⟩, ?_⟩
  · exact List.pairwise_map.2 ((ofList inserts).sorted.imp Text.bytes_lt_iff.2)
  · intro path
    rw [List.map_map]
    exact mem_paths_ofList_iff
  · intro line hline
    obtain ⟨⟨path, resource⟩, hentry, rfl⟩ := List.mem_map.1 hline
    exact ⟨resource, (find?_ofList ..).symm.trans (mem_entries_iff.1 hentry), rfl⟩
  · rw [List.map_map]
    rfl

/-- There are as many resources as paths in normal form at which something was put. -/
theorem size_ofList (inserts : List (String × Resource)) :
    (ofList inserts).size = (inserts.map fun entry => Path.normal entry.1).toFinset.card := by
  rw [size, ← List.length_map Prod.fst, ← List.toFinset_card_of_nodup (nodup_paths _)]
  refine congrArg Finset.card (Finset.ext fun path => ?_)
  rw [List.mem_toFinset, List.mem_toFinset, mem_paths_ofList_iff, List.mem_map]

/-- What a directory answers, holds and lists is told from what was put last at each path in normal
    form. Requests that do not want to read are refused. The listing is given at its own path, even
    if something was put there; at any other path, what was put there last, unless its media type
    cannot be written. Two histories that agree on what was put last at each path make no
    difference. -/
theorem history (inserts : List (String × Resource)) :
    (∀ r, Answers inserts (ofList inserts).listing r ((ofList inserts).respond r)) ∧
    (ofList inserts).size = (inserts.map fun entry => Path.normal entry.1).toFinset.card ∧
    (∃ lines, Lists inserts lines ∧ (ofList inserts).listing =
      ",".intercalate (lines.map fun line => s!"<{line.1}>;ct={line.2}")) ∧
    ∀ inserts' : List (String × Resource),
      (∀ path, latest? inserts path = latest? inserts' path) →
        (ofList inserts).listing = (ofList inserts').listing ∧
        ∀ r, (ofList inserts).respond r = (ofList inserts').respond r := by
  refine ⟨answers_ofList inserts, size_ofList inserts, exists_lists_ofList inserts, ?_⟩
  intro inserts' hlatest
  -- A directory is told from what is found at each path.
  have hsame : ofList inserts = ofList inserts' := by
    refine eq_of_find?_eq fun path => ?_
    rw [find?_ofList, find?_ofList, hlatest]
  rw [hsame]
  exact ⟨rfl, fun _ => rfl⟩

/-- Two places are spelled in two ways each, and something is put at the path of the listing. At the
    first place, what was put there last is served; at the second one, its media type cannot be
    written. -/
theorem history_spellings :
    let inserts : List (String × Resource) :=
      [("b", ⟨[49], 0⟩), ("/a//b/", ⟨[50], 0⟩), (wellKnownCore, ⟨[51], 0⟩), ("a/b", ⟨[52], 70000⟩),
        ("//b", ⟨[53], 50⟩)]
    (ofList inserts).size = 3 ∧
    (ofList inserts).listing = "</.well-known/core>;ct=0,</a/b>;ct=70000,</b>;ct=50" ∧
    (∃ r, Request.get "/b" = .ok r ∧ Gives ((ofList inserts).respond r) .content [53] (some 50)) ∧
    ∃ r, Request.get "/a/b" = .ok r ∧ (ofList inserts).respond r =
      .error (.option .contentType (.length (BigEndian.width 70000))) := by
  intro inserts
  obtain ⟨hanswers, hsize, -, -⟩ := history inserts
  refine ⟨hsize.trans (by decide +kernel), by decide +kernel, ?_, ?_⟩
  · -- Put there in two spellings, of which the second one came last.
    have hpieces : (("/b".toList.splitOn '/').filter fun piece => !piece.isEmpty) = [['b']] := by
      decide +kernel
    have hnames : Path.Denotes "/b" ["b"] := by
      rw [Path.Denotes, hpieces]
      exact .cons (by decide) .nil
    obtain ⟨r, hget, hpath⟩ := Request.exists_get_eq_ok hnames (by decide) (by decide) (by decide)
    have hcode := (Request.of_get_eq_ok hget).1
    refine ⟨r, hget, (hanswers r).found hcode ?_ ⟨[53], 50⟩ ?_ (by decide)⟩ <;>
      · rw [hpath]
        decide +kernel
  · -- The media type that came last does not fit into two bytes.
    have hpieces : (("/a/b".toList.splitOn '/').filter fun piece => !piece.isEmpty) =
        [['a'], ['b']] := by decide +kernel
    have hnames : Path.Denotes "/a/b" ["a", "b"] := by
      rw [Path.Denotes, hpieces]
      exact .cons (by decide) (.cons (by decide) .nil)
    obtain ⟨r, hget, hpath⟩ := Request.exists_get_eq_ok hnames (by decide) (by decide) (by decide)
    have hcode := (Request.of_get_eq_ok hget).1
    refine ⟨r, hget, (hanswers r).failed hcode ?_ ⟨[52], 70000⟩ ?_ (by decide)⟩ <;>
      · rw [hpath]
        decide +kernel

end Directory

end Coap
