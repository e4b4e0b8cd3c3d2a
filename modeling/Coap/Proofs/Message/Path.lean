import Coap.Proofs.Options.Replacement
import Coap.Request
import Mathlib.Data.List.Nodup

/-!
# Setting the path of a request

The pieces of a path between its slashes, as far as they are not empty, stand for texts
(`Path.Denotes`), which become the segments of a request. All of them are read first, and a piece
that cannot be read changes nothing. After that the old segments are taken out, and the new ones are
added one after the other. Here an addition may fail: a segment comes twice, or there are too many
options. Then the path is what was added until then, and the old one is gone.

* `Path.pieces_eq_splitOn`: the pieces of a text;
* `Opt.IsSegment`: the options that hold segments, one for each text that is neither empty nor too
  long;
* `Options.setPath_of_denotes`, `Options.setPath_of_unread`: pieces that can be read, and others;
* `Request.setPath_complete`: which paths can be set, and what the request is then;
* `Request.setPath_incomplete`: what a path leaves that cannot be set.
-/

namespace Coap

/-! ### Lists of results -/

section Results

variable {α β ε : Type} {f : α → Except ε β} {e : ε} {l : List α} {l' : List β}

/-- All elements are changed just if each of them can be. -/
theorem mapM_eq_ok_iff :
    l.mapM f = .ok l' ↔ List.Forall₂ (fun a b => f a = .ok b) l l' := by
  induction l generalizing l' with
  | nil => simp [pure, Except.pure, eq_comm]
  | cons a l ih =>
    rw [List.mapM_cons, List.forall₂_cons_left_iff]
    cases hf : f a with
    | error e => simp [bind, Except.bind]
    | ok b =>
      cases hl : l.mapM f with
      | error e => simp [bind, Except.bind, ← ih, hl]
      | ok bs => simp [bind, Except.bind, pure, Except.pure, ← ih, hl, eq_comm]

/-- The error is that of the first element that has one. -/
theorem exists_of_mapM_eq_error (h : l.mapM f = .error e) :
    ∃ before a after, l = before ++ a :: after ∧ (∀ b ∈ before, ∃ c, f b = .ok c) ∧
      f a = .error e := by
  induction l with
  | nil => cases h
  | cons a l ih =>
    rw [List.mapM_cons] at h
    -- The first element has the error, or all that come before the one that has it.
    cases hf : f a with
    | error e' =>
      rw [hf] at h
      obtain rfl := Except.error.inj h
      exact ⟨[], a, l, rfl, List.forall_mem_nil _, hf⟩
    | ok b =>
      rw [hf] at h
      cases hl : l.mapM f with
      | ok bs =>
        rw [hl] at h
        cases h
      | error e' =>
        rw [hl] at h
        obtain rfl := Except.error.inj h
        obtain ⟨before, a', after, rfl, hbefore, ha'⟩ := ih hl
        exact ⟨a :: before, a', after, rfl, List.forall_mem_cons.2 ⟨⟨b, hf⟩, hbefore⟩, ha'⟩

end Results

/-! ### Pieces and segments -/

namespace Path

/-- The pieces of a text are what is between its slashes. -/
theorem pieces_eq_splitOn (text : List Char) : pieces text = text.splitOn '/' := by
  induction text with
  | nil => exact (List.splitOn_nil _).symm
  | cons c rest ih =>
    rw [pieces, List.splitOn_cons_eq_if_modifyHead, ih]
    by_cases hc : c = '/'
    · simp [hc]
    · rw [if_neg hc, if_neg (by simpa using hc)]
      cases hrest : List.splitOn '/' rest with
      | nil => exact absurd (ih.trans hrest) (pieces_ne_nil rest)
      | cons piece others => rfl

/-- What the pieces of a path between its slashes stand for, as far as they are not empty: each of
    them is percent decoded to the written form of a text. -/
def Denotes (path : String) (names : List String) : Prop :=
  List.Forall₂
    (fun piece name => Percent.decode (Text.bytes (String.ofList piece)) = some (Text.bytes name))
    ((path.toList.splitOn '/').filter fun piece => !piece.isEmpty) names

/-- The names of a path are its segments, decoded one by one. -/
theorem denotes_iff {path : String} {names : List String} :
    Denotes path names ↔ List.Forall₂
      (fun segment name => Percent.decode (Text.bytes segment) = some (Text.bytes name))
      (segments path) names := by
  rw [segments, List.forall₂_map_left_iff, Denotes, pieces_eq_splitOn]

/-- A path stands for one list of names at most. -/
theorem Denotes.unique {path : String} {names names' : List String} (h : Denotes path names)
    (h' : Denotes path names') : names = names' := by
  refine List.right_unique_forall₂' ?_ h h'
  intro piece name name' hname hname'
  exact Text.bytes_inj.1 (Option.some.inj (hname.symm.trans hname'))

end Path

/-- An option that holds a segment of a path. -/
def Opt.IsSegment (o : Opt) (name : String) : Prop := o.name = .uriPath ∧ o.value = .text name

namespace Opt

/-- An option is the segment of one name, and each name has one option. -/
theorem biUnique_isSegment : Relator.BiUnique IsSegment := by
  constructor
  · rintro ⟨name, value, fits⟩ ⟨name', value', fits'⟩ s ⟨rfl, rfl⟩ ⟨rfl, rfl⟩
    rfl
  · intro o s s' h h'
    exact Value.text.inj (h.2.symm.trans h'.2)

/-- The segments that an option can hold. -/
theorem exists_isSegment_iff {name : String} :
    (∃ o : Opt, o.IsSegment name) ↔
      1 ≤ (Text.bytes name).length ∧ (Text.bytes name).length ≤ 270 :=
  exists_value_eq_iff.trans ⟨fun h => h.admits, fun h => ⟨rfl, h, trivial⟩⟩

/-- An option of a path is the segment of some name. -/
theorem exists_isSegment {o : Opt} (h : o.name = .uriPath) : ∃ name, o.IsSegment name := by
  obtain ⟨s, hs⟩ := exists_value_eq_text (h ▸ rfl : o.name.format = .text)
  exact ⟨s, h, hs⟩

/-- A piece of a path makes an option just if it can be decoded to a segment. -/
theorem text_uriPath_eq_ok_iff {piece : String} {o : Opt} :
    text .uriPath piece = .ok o ↔
      ∃ name, o.IsSegment name ∧ Percent.decode (Text.bytes piece) = some (Text.bytes name) := by
  rw [text_eq_ok_iff]
  constructor
  · rintro ⟨-, hname, hdecode⟩
    obtain ⟨name, hsegment⟩ := exists_isSegment hname
    refine ⟨name, hsegment, hdecode.trans ?_⟩
    rw [encode, hsegment.2, Value.encode]
  · rintro ⟨name, ⟨hname, hvalue⟩, hdecode⟩
    refine ⟨rfl, hname, hdecode.trans ?_⟩
    rw [encode, hvalue, Value.encode]

theorem map_text?_of_isSegment {l : List Opt} {names : List String}
    (h : List.Forall₂ IsSegment l names) : l.map text? = names.map some := by
  induction h with
  | nil => rfl
  | cons hsegment _ ih => rw [List.map_cons, List.map_cons, ih, text?, hsegment.2]

theorem name_of_isSegment {l : List Opt} {names : List String}
    (h : List.Forall₂ IsSegment l names) : ∀ o ∈ l, o.name = .uriPath := by
  have hand : List.Forall₂ (fun o name => o.name = Name.uriPath ∧ o.value = .text name) l names := h
  exact ((List.forall₂_and_left l names).1 hand).1

theorem isSegment_filterMap {l : List Opt} (h : ∀ o ∈ l, o.name = .uriPath) :
    List.Forall₂ IsSegment l (l.filterMap text?) := by
  induction l with
  | nil => exact .nil
  | cons o l ih =>
    obtain ⟨hhead, htail⟩ := List.forall_mem_cons.1 h
    obtain ⟨name, hsegment⟩ := exists_isSegment hhead
    have htext : o.text? = some name := by rw [text?, hsegment.2]
    rw [List.filterMap_cons_some htext]
    exact .cons hsegment (ih htail)

theorem filterMap_text?_of_isSegment {l : List Opt} {names : List String}
    (h : List.Forall₂ IsSegment l names) : l.filterMap text? = names :=
  List.right_unique_forall₂' biUnique_isSegment.2 (isSegment_filterMap (name_of_isSegment h)) h

/-- Names fit into a path just if each of them fits into an option. -/
theorem exists_segments_iff {names : List String} :
    (∃ l : List Opt, List.Forall₂ IsSegment l names) ↔
      ∀ name ∈ names, 1 ≤ (Text.bytes name).length ∧ (Text.bytes name).length ≤ 270 := by
  induction names with
  | nil => exact ⟨fun _ => List.forall_mem_nil _, fun _ => ⟨[], .nil⟩⟩
  | cons name names ih =>
    rw [List.forall_mem_cons, ← ih, ← exists_isSegment_iff]
    constructor
    · rintro ⟨l, h⟩
      obtain ⟨o, l', ho, hl', -⟩ := List.forall₂_cons_right_iff.1 h
      exact ⟨⟨o, ho⟩, l', hl'⟩
    · rintro ⟨⟨o, ho⟩, l, hl⟩
      exact ⟨o :: l, .cons ho hl⟩

end Opt

/-- All pieces of a path stand for segments that options can hold. -/
def Path.Readable (path : String) : Prop :=
  ∃ names added, Denotes path names ∧ List.Forall₂ Opt.IsSegment added names

namespace Options

/-- All pieces can be read just if they stand for segments that options can hold. -/
theorem readable_iff {path : String} {added : List Opt} :
    (Path.segments path).mapM (Opt.text .uriPath) = .ok added ↔
      ∃ names, Path.Denotes path names ∧ List.Forall₂ Opt.IsSegment added names := by
  simp only [mapM_eq_ok_iff, Opt.text_uriPath_eq_ok_iff, Path.denotes_iff]
  generalize Path.segments path = segments
  induction segments generalizing added with
  | nil => simp
  | cons segment segments ih =>
    -- Piece by piece: what it stands for, and the option that holds it.
    rw [List.forall₂_cons_left_iff]
    constructor
    · rintro ⟨o, l, ⟨name, hsegment, hdecode⟩, hl, rfl⟩
      obtain ⟨names, hnames, hsegments⟩ := ih.1 hl
      exact ⟨name :: names, .cons hdecode hnames, .cons hsegment hsegments⟩
    · rintro ⟨names, hnames, hsegments⟩
      obtain ⟨name, others, hdecode, hothers, rfl⟩ := List.forall₂_cons_left_iff.1 hnames
      obtain ⟨o, l, hsegment, hl, rfl⟩ := List.forall₂_cons_right_iff.1 hsegments
      exact ⟨o, l, ⟨name, hsegment, hdecode⟩, ih.2 ⟨others, hothers, hl⟩, rfl⟩

/-- A path whose pieces can be read is set by adding its segments where there are none. -/
theorem setPath_of_denotes (options : Options) (code : Code) {path : String} {added : List Opt}
    {names : List String} (hnames : Path.Denotes path names)
    (hadded : List.Forall₂ Opt.IsSegment added names) :
    options.setPath code path = (options.without [.uriPath]).addAll code added := by
  rw [setPath, readable_iff.2 ⟨names, hnames, hadded⟩]

/-- A path with a piece that cannot be read changes nothing; the first such piece is at fault. -/
theorem setPath_of_unread (options : Options) (code : Code) {path : String}
    (h : ¬ Path.Readable path) :
    ∃ fault before piece after, options.setPath code path = .stopped options fault ∧
      Path.segments path = before ++ piece :: after ∧
      (∀ other ∈ before, ∃ o, Opt.text .uriPath other = .ok o) ∧
      Opt.text .uriPath piece = .error fault := by
  cases hread : (Path.segments path).mapM (Opt.text .uriPath) with
  | ok added =>
    obtain ⟨names, hnames, hadded⟩ := readable_iff.1 hread
    exact absurd ⟨names, added, hnames, hadded⟩ h
  | error fault =>
    obtain ⟨before, piece, after, hsegments, hbefore, hpiece⟩ := exists_of_mapM_eq_error hread
    refine ⟨fault, before, piece, after, ?_, hsegments, hbefore, hpiece⟩
    rw [setPath, hread]

end Options

namespace Request

variable {r : Request} {path : String} {added : List Opt} {names : List String}

/-- A request may have as many segments as there is room for. -/
theorem occurrence_uriPath (r : Request) :
    Opt.Name.uriPath.occurrence r.message.code = .repeatable := by
  rw [Opt.Name.occurrence, if_pos r.isRequest]
  rfl

/-- A path with a piece that cannot be read changes nothing. -/
theorem setPath_of_unread (r : Request) (h : ¬ Path.Readable path) :
    ∃ fault before piece after, r.setPath path = .stopped r fault ∧
      Path.segments path = before ++ piece :: after ∧
      (∀ other ∈ before, ∃ o, Opt.text .uriPath other = .ok o) ∧
      Opt.text .uriPath piece = .error fault := by
  obtain ⟨fault, before, piece, after, hset, hpieces⟩ :=
    r.message.options.setPath_of_unread r.message.code h
  refine ⟨fault, before, piece, after, ?_, hpieces⟩
  rw [setPath, hset]
  rfl

section Read

variable (hnames : Path.Denotes path names) (hadded : List.Forall₂ Opt.IsSegment added names)

include hnames hadded

/-- The path of a request is set by adding the segments to the options without the old ones. -/
theorem setPath_of_denotes : r.setPath path =
    ((r.message.options.without [.uriPath]).addAll r.message.code added).map r.withOptions := by
  rw [setPath, Options.setPath_of_denotes _ _ hnames hadded]

/-- A path whose pieces can be read is set just if its segments are pairwise different and there is
    room for them. -/
theorem setPath_done_iff :
    (r.setPath path).fault? = none ↔
      names.Nodup ∧ names.length + (r.message.options.without [.uriPath]).length ≤ 15 := by
  have hnodup : added.Nodup ↔ names.Nodup := List.rel_nodup Opt.biUnique_isSegment hadded
  rw [setPath_of_denotes hnames hadded]
  refine (Options.addAll_done_iff (Opt.name_of_isSegment hadded) r.occurrence_uriPath).trans ?_
  rw [Options.values_without_self, List.nil_append, hnodup, hadded.length_eq, Nat.add_comm]
  exact Iff.rfl

/-- After a path was set its segments are there, and the other options are what they were. -/
theorem of_setPath_done (h : (r.setPath path).fault? = none) :
    (r.setPath path).value.message.options.values .uriPath = added ∧
      (r.setPath path).value.message.options.without [.uriPath] =
        r.message.options.without [.uriPath] := by
  rw [setPath_of_denotes hnames hadded] at h ⊢
  have hdone : (r.message.options.without [.uriPath]).addAll r.message.code added =
      .done ((r.message.options.without [.uriPath]).addAll r.message.code added).value :=
    congrArg (Edited.mk _) h
  obtain ⟨hvalues, hothers, -⟩ := Options.of_addAll_done (Opt.name_of_isSegment hadded) hdone
  rw [Options.values_without_self, List.nil_append] at hvalues
  exact ⟨hvalues, hothers.trans (Options.without_without_self _ _)⟩

/-- A path whose pieces can be read is set up to the first segment that comes a second time or for
    which there is no room. -/
theorem of_setPath_stopped {fault : Fault} (h : (r.setPath path).fault? = some fault) :
    ∃ placed name rest, names = placed ++ name :: rest ∧
      ((r.message.options.without [.uriPath]).length + placed.length = 15 ∧
          fault = .tooManyOptions ∨
        (r.message.options.without [.uriPath]).length + placed.length < 15 ∧ name ∈ placed ∧
          fault = .option .uriPath .repeated) ∧
      (r.setPath path).value.segments = placed ∧
      (r.setPath path).value.message.options.without [.uriPath] =
        r.message.options.without [.uriPath] := by
  rw [setPath_of_denotes hnames hadded] at h ⊢
  obtain ⟨placed, o, rest, rfl, hvalues, hothers, hfault⟩ :=
    Options.of_addAll_stopped (Opt.name_of_isSegment hadded) r.occurrence_uriPath h
  -- All old segments were taken out, so what is found of the name was added here.
  rw [Options.values_without_self, List.nil_append] at hvalues hfault
  rw [Options.without_without_self] at hothers
  have hname := Opt.name_of_isSegment hadded
  have hplaced : List.Forall₂ Opt.IsSegment placed (placed.filterMap Opt.text?) :=
    Opt.isSegment_filterMap fun a ha => hname a (by simp [ha])
  obtain ⟨name, hsegment⟩ := Opt.exists_isSegment (hname o (by simp))
  have htext : o.text? = some name := by rw [Opt.text?, hsegment.2]
  refine ⟨placed.filterMap Opt.text?, name, rest.filterMap Opt.text?, ?_, ?_,
    congrArg (List.filterMap Opt.text?) hvalues, hothers⟩
  · rw [← Opt.filterMap_text?_of_isSegment hadded, List.filterMap_append,
      List.filterMap_cons_some htext]
  · -- Two options of this name are equal just if their texts are.
    have hmem : o ∈ placed ↔ name ∈ placed.filterMap Opt.text? :=
      List.rel_mem Opt.biUnique_isSegment hsegment hplaced
    rw [← hplaced.length_eq, ← hmem]
    exact hfault

end Read

/-- A request whose other options stay is the same if its segments are. -/
theorem eq_iff_segments_eq {r' : Request} (hrest : r' = r.withOptions r'.message.options)
    (hothers : r'.message.options.without [.uriPath] = r.message.options.without [.uriPath]) :
    r' = r ↔ r'.segments = r.segments := by
  refine ⟨fun h => h ▸ rfl, fun h => ?_⟩
  have hsegments : ∀ r : Request,
      List.Forall₂ Opt.IsSegment (r.message.options.values .uriPath) r.segments :=
    fun r => Opt.isSegment_filterMap fun o ho => by simpa using (List.mem_filter.1 ho).2
  have hvalues := List.left_unique_forall₂' Opt.biUnique_isSegment.1 (h ▸ hsegments r')
    (hsegments r)
  have hown : ∀ other : Opt.Name, other.number = Opt.Name.uriPath.number → other = .uriPath := by
    intro other
    cases other <;> decide
  rw [hrest, Options.eq_of_values_without hown hvalues hothers]
  rfl

/-- A path can be set just if each of its pieces that are not empty is percent decoded to a text of
    a fitting length, no two of these are equal, and there is room for all of them beside the other
    options. Then they are the segments, in their order, and nothing else changed. -/
theorem setPath_complete (r : Request) (path : String) :
    let e := r.setPath path
    let others := r.message.options.without [.uriPath]
    (e.fault? = none ↔ ∃ names, Path.Denotes path names ∧
      (∀ name ∈ names, 1 ≤ (Text.bytes name).length ∧ (Text.bytes name).length ≤ 270) ∧
      names.Nodup ∧ names.length + others.length ≤ 15) ∧
    (e.fault? = none → ∀ names, Path.Denotes path names →
      (e.value.message.options.values .uriPath).map Opt.text? = names.map some ∧
      e.value.path = "/" ++ "/".intercalate names ∧
      e.value.message.options.without [.uriPath] = others ∧
      e.value = r.withOptions e.value.message.options) := by
  intro e others
  -- Had a piece been left unread, nothing would have been set.
  have hread : e.fault? = none → Path.Readable path := by
    intro hdone
    by_contra hunread
    obtain ⟨fault, -, -, -, hset, -⟩ := r.setPath_of_unread hunread
    cases (congrArg Edited.fault? hset).symm.trans hdone
  refine ⟨⟨fun hdone => ?_, ?_⟩, fun hdone names hnames => ?_⟩
  · obtain ⟨names, added, hnames, hadded⟩ := hread hdone
    exact ⟨names, hnames, Opt.exists_segments_iff.1 ⟨added, hadded⟩,
      (setPath_done_iff hnames hadded).1 hdone⟩
  · rintro ⟨names, hnames, hlengths, hdistinct⟩
    obtain ⟨added, hadded⟩ := Opt.exists_segments_iff.2 hlengths
    exact (setPath_done_iff hnames hadded).2 hdistinct
  · -- The texts that a path stands for are unique, so these are the ones that were added.
    obtain ⟨names', added, hnames', hadded⟩ := hread hdone
    obtain rfl := hnames'.unique hnames
    obtain ⟨hvalues, hothers⟩ := of_setPath_done hnames' hadded hdone
    have hsegments : e.value.segments = names' :=
      (congrArg (List.filterMap Opt.text?) hvalues).trans (Opt.filterMap_text?_of_isSegment hadded)
    refine ⟨?_, ?_, hothers, rfl⟩
    · rw [hvalues]
      exact Opt.map_text?_of_isSegment hadded
    · rw [Request.path, hsegments, Path.join]

/-- A GET that has a token and a path gets another path, which has empty pieces and a slash within a
    segment. -/
theorem setPath_complete_slashes :
    let options := (∅ : Options).addAll .get
      [⟨.uriPath, .text "x", rfl, by decide, trivial⟩,
        ⟨.token, .octets [7], rfl, by decide, trivial⟩]
    let get : Request :=
      ⟨{ type? := some .con, code := .get, id? := none, options := options.value }, rfl⟩
    let path := "/a//b%2fc/"
    let e := get.setPath path
    Path.Denotes path ["a", "b/c"] ∧ e.fault? = none ∧ e.value.path = "/a/b/c" ∧
      (e.value.message.options.values .uriPath).map Opt.text? = [some "a", some "b/c"] ∧
      e.value.message.options.without [.uriPath] = get.message.options.without [.uriPath] := by
  intro options get path e
  have hpieces : ((path.toList.splitOn '/').filter fun piece => !piece.isEmpty) =
      [['a'], ['b', '%', '2', 'f', 'c']] := by decide +kernel
  have hnames : Path.Denotes path ["a", "b/c"] := by
    rw [Path.Denotes, hpieces]
    exact .cons (by decide) (.cons (by decide) .nil)
  obtain ⟨hiff, hset⟩ := setPath_complete get path
  have hdone : e.fault? = none :=
    hiff.2 ⟨["a", "b/c"], hnames, by decide, by decide, by decide +kernel⟩
  obtain ⟨htexts, hpath, hothers, -⟩ := hset hdone _ hnames
  exact ⟨hnames, hdone, hpath, htexts, hothers⟩

/-- A path that cannot be set for a piece that cannot be read changes nothing. Any other one leaves
    the segments before the first that is there already or finds no room, in place of the old ones;
    so the request is what it was only if these are the segments that it had. -/
theorem setPath_incomplete (r : Request) (path : String) (fault : Fault)
    (h : (r.setPath path).fault? = some fault) :
    let r' := (r.setPath path).value
    let others := r.message.options.without [.uriPath]
    (∃ before piece after, Path.segments path = before ++ piece :: after ∧
      (∀ other ∈ before, ∃ o, Opt.text .uriPath other = .ok o) ∧
      Opt.text .uriPath piece = .error fault ∧ r' = r) ∨
    ∃ placed name rest, Path.Denotes path (placed ++ name :: rest) ∧
      (others.length + placed.length = 15 ∧ fault = .tooManyOptions ∨
        others.length + placed.length < 15 ∧ name ∈ placed ∧ fault = .option .uriPath .repeated) ∧
      r'.segments = placed ∧ r'.message.options.without [.uriPath] = others ∧
      r' = r.withOptions r'.message.options ∧ (r' = r ↔ r.segments = placed) := by
  intro r' others
  -- Either all pieces can be read, and the run stops at a segment, or one cannot, and nothing is
  -- done.
  by_cases hread : Path.Readable path
  · obtain ⟨names, added, hnames, hadded⟩ := hread
    obtain ⟨placed, name, rest, rfl, hfault, hsegments, hothers⟩ :=
      of_setPath_stopped hnames hadded h
    refine .inr ⟨placed, name, rest, hnames, hfault, hsegments, hothers, rfl, ?_⟩
    rw [eq_iff_segments_eq rfl hothers, hsegments, eq_comm]
  · obtain ⟨fault', before, piece, after, hset, hsegments, hbefore, hpiece⟩ :=
      r.setPath_of_unread hread
    obtain rfl := Option.some.inj ((congrArg Edited.fault? hset).symm.trans h)
    exact .inl ⟨before, piece, after, hsegments, hbefore, hpiece, congrArg Edited.value hset⟩

/-- The second piece of a path lacks a digit, and so the request keeps the path that it had. -/
theorem setPath_incomplete_unread :
    let options := (∅ : Options).addAll .get [⟨.uriPath, .text "x", rfl, by decide, trivial⟩]
    let get : Request :=
      ⟨{ type? := some .con, code := .get, id? := none, options := options.value }, rfl⟩
    (get.setPath "/a/%4").fault? = some (.option .uriPath (.percent "%4")) ∧
      (get.setPath "/a/%4").value = get := by
  intro options get
  have h : (get.setPath "/a/%4").fault? = some (.option .uriPath (.percent "%4")) := by
    decide +kernel
  refine ⟨h, ?_⟩
  rcases setPath_incomplete get "/a/%4" _ h with
    ⟨-, -, -, -, -, -, hsame⟩ | ⟨-, -, -, -, ⟨-, hfault⟩ | ⟨-, -, hfault⟩, -⟩
  · exact hsame
  · cases hfault
  · cases hfault

/-- A segment comes twice in a path. The first two are set when this is noticed, and the path that
    the request had is gone. -/
theorem setPath_halfway :
    let options := (∅ : Options).addAll .get [⟨.uriPath, .text "x", rfl, by decide, trivial⟩]
    let get : Request :=
      ⟨{ type? := some .con, code := .get, id? := none, options := options.value }, rfl⟩
    Options.Reachable (· = .get) get.message.options ∧
      (get.setPath "/a/b/a").fault? = some (.option .uriPath .repeated) ∧
      get.path = "/x" ∧ (get.setPath "/a/b/a").value.path = "/a/b" ∧
      (get.setPath "/a/b/a").value ≠ get := by
  intro options get
  have hoptions : Options.Reachable (· = .get) options.value := by
    refine .addAll .empty ?_ _
    rfl
  exact ⟨hoptions, by decide +kernel, by decide +kernel, by decide +kernel, by decide +kernel⟩

end Request

end Coap
