import Coap.Directory
import Coap.Proofs.Message.Path
import Coap.Proofs.Message.Setting
import Coap.Proofs.Text.Ascii
import Coap.Proofs.Text.Percent
import Mathlib

/-!
# Where a resource is served

A resource is put at the normal form of a path as it stands, while a request for the same path asks
for what its segments are decoded to. Decoding makes a segment shorter just if there is a percent
sign in it; so the two are the same place just if the path is written without percent signs. With
them the request does not notice that the resource is there.

* `Path.Denotes.join_eq_normal_iff`: when the segments of a path are those that it stands for;
* `Request.of_get_eq_ok`: what a request for a path asks for;
* `Response.exists_content`: the response that carries a payload;
* `Directory.placement`: the response to a request for the path at which a resource was put.
-/

namespace Coap

/-! ### Paths with and without percent signs -/

namespace Path

variable {path : String} {names : List String}

/-- The characters of the pieces are those of the text, except for the slashes. -/
theorem exists_mem_pieces_iff {c : Char} (hc : c ≠ '/') {text : List Char} :
    (∃ piece ∈ pieces text, c ∈ piece) ↔ c ∈ text := by
  fun_induction pieces text with
  | case1 => simp
  | case2 rest ih => simp [ih, hc]
  | case3 c' rest _ hpieces => exact absurd hpieces (pieces_ne_nil rest)
  | case4 c' rest _ piece others hpieces ih =>
    rw [hpieces] at ih
    simp only [List.mem_cons, exists_eq_or_imp] at ih ⊢
    rw [← ih, or_assoc]

/-- Some segment has a percent sign just if the path has one. -/
theorem exists_sign_mem_iff :
    (∃ segment ∈ segments path, Percent.sign ∈ Text.bytes segment) ↔ '%' ∈ path.toList := by
  have hsign (s : String) : Percent.sign ∈ Text.bytes s ↔ '%' ∈ s.toList := by
    rw [Text.mem_bytes_iff (by decide)]
    constructor
    · rintro ⟨c, hc, hnumber⟩
      exact (Char.toNat_inj.1 hnumber : c = '%') ▸ hc
    · exact fun h => ⟨'%', h, rfl⟩
  rw [← exists_mem_pieces_iff (by decide)]
  simp only [segments, List.mem_map, List.mem_filter, hsign]
  constructor
  · rintro ⟨_, ⟨piece, ⟨hpiece, -⟩, rfl⟩, hc⟩
    exact ⟨piece, hpiece, by rwa [String.toList_ofList] at hc⟩
  · rintro ⟨piece, hpiece, hc⟩
    refine ⟨_, ⟨piece, ⟨hpiece, ?_⟩, rfl⟩, by rwa [String.toList_ofList]⟩
    -- A segment with a percent sign is not empty, so it is not left out.
    rw [List.isEmpty_eq_false_iff.2 (List.ne_nil_of_mem hc)]
    rfl

/-- A path is as long as its segments are together, with a slash before each, or one if there is
    none. -/
theorem length_bytes_join (names : List String) :
    (Text.bytes (join names)).length =
      (names.map fun name => (Text.bytes name).length).sum + (names.length - 1) + 1 := by
  have hslash : (Text.bytes "/").length = 1 := by decide
  rw [join, Text.bytes_append, List.length_append, hslash, Nat.add_comm]
  refine congrArg (· + 1) ?_
  induction names with
  | nil => rfl
  | cons name others ih =>
    -- Each further segment brings a slash along.
    cases others with
    | nil => simp
    | cons other others =>
      rw [String.intercalate_cons_cons, Text.bytes_append, Text.bytes_append, List.length_append,
        List.length_append, hslash, ih]
      simp only [List.map_cons, List.sum_cons, List.length_cons]
      omega

section Decoded

variable {segments : List String}
  (h : List.Forall₂
    (fun segment name => Percent.decode (Text.bytes segment) = some (Text.bytes name))
    segments names)

include h

/-- Decoding makes the segments no longer, all together. -/
theorem sum_length_le :
    (names.map fun name => (Text.bytes name).length).sum ≤
      (segments.map fun segment => (Text.bytes segment).length).sum := by
  induction h with
  | nil => exact Nat.le_refl _
  | cons hhead _ ih =>
    simp only [List.map_cons, List.sum_cons]
    exact Nat.add_le_add (Percent.length_le_of_decode hhead) ih

/-- Decoding makes segments shorter if there is a percent sign in one of them. -/
theorem sum_length_lt (hsign : ∃ segment ∈ segments, Percent.sign ∈ Text.bytes segment) :
    (names.map fun name => (Text.bytes name).length).sum <
      (segments.map fun segment => (Text.bytes segment).length).sum := by
  induction h with
  | nil =>
    obtain ⟨segment, hsegment, -⟩ := hsign
    exact absurd hsegment List.not_mem_nil
  | cons hhead htail ih =>
    simp only [List.map_cons, List.sum_cons]
    rcases (List.exists_mem_cons_iff _ _ _).1 hsign with hfirst | hlater
    · exact Nat.add_lt_add_of_lt_of_le (Percent.length_lt_of_decode hhead hfirst)
        (sum_length_le htail)
    · exact Nat.add_lt_add_of_le_of_lt (Percent.length_le_of_decode hhead) (ih hlater)

/-- Segments without a percent sign stand for themselves. -/
theorem eq_of_sign_not_mem
    (hsign : ∀ segment ∈ segments, Percent.sign ∉ Text.bytes segment) : names = segments := by
  induction h with
  | nil => rfl
  | cons hhead _ ih =>
    obtain ⟨hfirst, hlater⟩ := List.forall_mem_cons.1 hsign
    rw [Percent.decode_of_sign_not_mem hfirst, Option.some.injEq, Text.bytes_inj] at hhead
    rw [hhead, ih hlater]

end Decoded

/-- The segments that a path stands for are those that it has, as long as there is no percent sign
    in it. -/
theorem Denotes.join_eq_normal_iff (h : Denotes path names) :
    join names = normal path ↔ '%' ∉ path.toList := by
  rw [← exists_sign_mem_iff, normal]
  rw [denotes_iff] at h
  constructor
  · intro heq hsign
    have hlt := sum_length_lt h hsign
    have hlength := congrArg (fun s => (Text.bytes s).length) heq
    simp only [length_bytes_join, h.length_eq] at hlength
    omega
  · intro hsign
    rw [eq_of_sign_not_mem h fun segment hsegment hmem => hsign ⟨segment, hsegment, hmem⟩]

end Path

/-! ### Requests and responses -/

/-- A request for a path asks for the segments that the path stands for. -/
theorem Request.of_get_eq_ok {path : String} {r : Request} (h : get path = .ok r) :
    r.message.code = .get ∧ ∃ names, Path.Denotes path names ∧ r.path = Path.join names := by
  let base : Request := ⟨.ofHeader (some .con) .get none, rfl⟩
  obtain ⟨hdone, rfl⟩ := Edited.toExcept_eq_ok_iff.1 (h : (base.setPath path).toExcept = .ok r)
  refine ⟨rfl, ?_⟩
  by_cases hread : Path.Readable path
  · obtain ⟨names, added, hnames, hadded⟩ := hread
    obtain ⟨hvalues, -⟩ := of_setPath_done hnames hadded hdone
    refine ⟨names, hnames, ?_⟩
    rw [Request.path, segments, hvalues, Opt.filterMap_text?_of_isSegment hadded]
  · obtain ⟨fault, -, -, -, hset, -⟩ := base.setPath_of_unread hread
    cases (congrArg Edited.fault? hset).symm.trans hdone

/-- There is a request for every path that stands for a few different segments, none of them too
    long. -/
theorem Request.exists_get_eq_ok {path : String} {names : List String}
    (hnames : Path.Denotes path names)
    (hlengths : ∀ name ∈ names, 1 ≤ (Text.bytes name).length ∧ (Text.bytes name).length ≤ 270)
    (hnodup : names.Nodup) (hroom : names.length ≤ 15) :
    ∃ r, get path = .ok r ∧ r.path = Path.join names := by
  let base : Request := ⟨.ofHeader (some .con) .get none, rfl⟩
  obtain ⟨added, hadded⟩ := Opt.exists_segments_iff.2 hlengths
  have hdone : (base.setPath path).fault? = none :=
    (setPath_done_iff hnames hadded).2 ⟨hnodup, hroom⟩
  have hget : get path = .ok (base.setPath path).value := Edited.toExcept_eq_ok_iff.2 ⟨hdone, rfl⟩
  obtain ⟨-, names', hnames', hpath⟩ := of_get_eq_ok hget
  exact ⟨_, hget, hnames'.unique hnames ▸ hpath⟩

/-- There is a response that carries a payload of a given media type, if the media type has at most
    two bytes. -/
theorem Response.exists_content (payload : Bytes) {mediaType : Nat} (h : mediaType < 65536) :
    ∃ response, content payload mediaType = .ok response ∧ response.message.code = .content ∧
      response.message.payload = payload ∧ response.contentType? = some mediaType := by
  let base : Response := ⟨.ofHeader none .content none, false, rfl⟩
  have hlegal : base.message.options.LegalUnder base.message.code := .empty
  have hset : base.message.Sets .contentType (.uint mediaType (BigEndian.width mediaType))
      (Opt.Name.contentType.occurrence base.message.code ≠ .never ∧ mediaType < 65536)
      ((base.setContentType mediaType).map Response.message) :=
    Message.sets_uint hlegal rfl rfl rfl
  have hdone : (base.setContentType mediaType).fault? = none :=
    hset.done_iff.2 ⟨⟨by decide, h⟩, .inr (by decide)⟩
  -- There is one option of the name, and its value is the media type.
  obtain ⟨o, hvalues, hvalue⟩ : ∃ o,
      (base.setContentType mediaType).value.message.options.values .contentType = [o] ∧
        o.value = .uint mediaType (BigEndian.width mediaType) :=
    List.map_eq_singleton_iff.1 (hset.values hdone)
  refine ⟨(base.setContentType mediaType).value.setPayload payload, ?_, rfl, rfl, ?_⟩
  · have hmade := Edited.toExcept_eq_ok_iff.2 ⟨hdone, rfl⟩
    change (base.setContentType mediaType).toExcept.map (·.setPayload payload) = _
    rw [hmade, Except.map]
  · change ((base.setContentType mediaType).value.message.options.first? .contentType).bind
      Opt.uint? = some mediaType
    rw [Options.first?_eq_head?_values, hvalues, List.head?_singleton, Option.bind_some, Opt.uint?,
      hvalue]

namespace Directory

variable {d : Directory} {path : String} {resource : Resource} {r : Request}

/-- A resource is served to requests for the normal form of the path where it was put. -/
theorem respond_insert_of_path_eq (hcode : r.message.code = .get) (hcore : r.path ≠ wellKnownCore)
    (h : r.path = Path.normal path) :
    (d.insert path resource).respond r = Response.content resource.payload resource.mediaType := by
  have hfound : (d.insert path resource).find? r.path = some resource := by
    rw [h, find?_insert_self]
  rw [respond, if_neg (not_not.2 hcode), if_neg hcore, hfound]

/-- To other requests nothing changes, except for the listing. -/
theorem respond_insert_of_path_ne (hcore : r.path ≠ wellKnownCore)
    (h : r.path ≠ Path.normal path) : (d.insert path resource).respond r = d.respond r := by
  rw [respond, respond, if_neg hcore, if_neg hcore, find?_insert_of_ne h]

/-- A request for the path at which a resource was put, unless it asks for the listing, asks for the
    normal form of the path just if there is no percent sign in it. Then the resource is served,
    with its payload and its media type. If there is a percent sign, then the response is the same
    as if the resource had not been put there. -/
theorem placement (d : Directory) (path : String) (resource : Resource) (r : Request)
    (hget : Request.get path = .ok r) (hcore : r.path ≠ wellKnownCore)
    (htype : resource.mediaType ≤ 65535) :
    (r.path = Path.normal path ↔ '%' ∉ path.toList) ∧
    ('%' ∉ path.toList → ∃ response, (d.insert path resource).respond r = .ok response ∧
      response.message.code = .content ∧ response.message.payload = resource.payload ∧
      response.contentType? = some resource.mediaType) ∧
    ('%' ∈ path.toList → (d.insert path resource).respond r = d.respond r) := by
  obtain ⟨hcode, names, hnames, hpath⟩ := Request.of_get_eq_ok hget
  have hiff : r.path = Path.normal path ↔ '%' ∉ path.toList := by
    rw [hpath, hnames.join_eq_normal_iff]
  refine ⟨hiff, fun hplain => ?_, fun hsign => ?_⟩
  · rw [respond_insert_of_path_eq hcode hcore (hiff.2 hplain)]
    exact Response.exists_content resource.payload (Nat.lt_succ_of_le htype)
  · exact respond_insert_of_path_ne hcore fun heq => hiff.1 heq hsign

/-- A resource whose path has empty pieces is served at it. -/
theorem placement_empty_pieces :
    let path := "//a/b/"
    let resource : Resource := ⟨[50, 49], 0⟩
    ∃ r, Request.get path = .ok r ∧ r.path ≠ wellKnownCore ∧ resource.mediaType ≤ 65535 ∧
      '%' ∉ path.toList ∧
      ∃ response, ((∅ : Directory).insert path resource).respond r = .ok response ∧
        response.message.code = .content ∧ response.message.payload = resource.payload ∧
        response.contentType? = some 0 := by
  intro path resource
  have hpieces : ((path.toList.splitOn '/').filter fun piece => !piece.isEmpty) =
      [['a'], ['b']] := by decide +kernel
  have hnames : Path.Denotes path ["a", "b"] := by
    rw [Path.Denotes, hpieces]
    exact .cons (by decide) (.cons (by decide) .nil)
  obtain ⟨r, hget, hpath⟩ := Request.exists_get_eq_ok hnames (by decide) (by decide) (by decide)
  have hcore : r.path ≠ wellKnownCore := by
    rw [hpath]
    decide
  have hplain : '%' ∉ path.toList := by decide
  have htype : resource.mediaType ≤ 65535 := by decide
  exact ⟨r, hget, hcore, htype, hplain, (placement ∅ path resource r hget hcore htype).2.1 hplain⟩

/-- A resource that was put at a path with a triplet is not found there. -/
theorem placement_triplet :
    ∃ r response, Request.get "/a%20b" = .ok r ∧ r.path = "/a b" ∧ r.path ≠ wellKnownCore ∧
      ((∅ : Directory).insert "/a%20b" ⟨[104], 0⟩).respond r = .ok response ∧
      response.message.code = .notFound ∧ response.message.payload = [] := by
  have hpieces : (("/a%20b".toList.splitOn '/').filter fun piece => !piece.isEmpty) =
      [['a', '%', '2', '0', 'b']] := by decide +kernel
  have hnames : Path.Denotes "/a%20b" ["a b"] := by
    rw [Path.Denotes, hpieces]
    exact .cons (by decide) .nil
  obtain ⟨r, hget, hpath⟩ := Request.exists_get_eq_ok hnames (by decide) (by decide) (by decide)
  obtain ⟨hcode, -⟩ := Request.of_get_eq_ok hget
  have hcore : r.path ≠ wellKnownCore := by
    rw [hpath]
    decide
  have hne : r.path ≠ Path.normal "/a%20b" := by
    rw [hpath, Ne, hnames.join_eq_normal_iff]
    decide
  refine ⟨r, ⟨.ofHeader none .notFound none, false, rfl⟩, hget, hpath, hcore, ?_, rfl, rfl⟩
  rw [respond_insert_of_path_ne hcore hne, respond, if_neg (not_not.2 hcode), if_neg hcore]
  rfl

end Directory

end Coap
