import Coap.Proofs.Options.Replacement
import Coap.Request
import Coap.Response

/-!
# Options that a message has one of

The token, the media type and the sequence number of a message are set by putting one option in the
place of another. Either this works, and then the new option is the only one of its name and nothing
else changed, or the message is what it was (`Message.Sets`). It works if the value is one that the
option can have, the option has a meaning in the message, and there is one already or room for it.

* `Opt.fits_uint_iff`, `Opt.fits_octets_iff`: the values that an option can have;
* `sets_replace`: what comes of an option that is to take the place of another;
* `settings`: what comes of setting these options of a request or a response.
-/

namespace Coap

/-! ### Values and meanings -/

/-- The numbers that an option can have that holds one. -/
theorem Opt.fits_uint_iff {name : Name} (hf : name.format = .uint)
    (hmin : name.entry.minLength = 0) {n : Nat} :
    (Value.uint n (BigEndian.width n)).Fits name ↔ n < BigEndian.bound name.entry.maxLength := by
  rw [← BigEndian.width_le_iff]
  exact ⟨fun h => h.admits.2, fun h =>
    ⟨hf.symm, ⟨hmin ▸ Nat.zero_le _, h⟩, BigEndian.lt_bound_width n⟩⟩

/-- The bytes that an option can have that holds some. -/
theorem Opt.fits_octets_iff {name : Name} (hf : name.format = .octets) {bytes : Bytes} :
    (Value.octets bytes).Fits name ↔ name.Admits bytes.length :=
  ⟨fun h => h.admits, fun h => ⟨hf.symm, h, trivial⟩⟩

/-- Every request and every response may have a token. -/
theorem Opt.occurrence_token {code : Code} (h : code.isRequest ∨ code.isResponse) :
    Name.token.occurrence code = .once := by
  rw [Name.occurrence]
  split
  · rfl
  · rename_i hrequest
    rw [if_pos (h.resolve_left hrequest)]
    rfl

namespace Message

/-! ### Setting an option -/

/-- The option of a name is set to a value, if this is possible. It takes the place of those of its
    name, and nothing else changes; or nothing changes at all. -/
structure Sets (m : Message) (name : Opt.Name) (value : Opt.Value) (possible : Prop)
    (e : Edited Message) : Prop where
  done_iff : e.fault? = none ↔ possible ∧ (m.options.contains name ∨ m.options.length < 15)
  values : e.fault? = none → (e.value.options.values name).map Opt.value = [value]
  others : e.fault? = none → e.value.options.without [name] = m.options.without [name]
  rest : e.fault? = none → e.value = m.withOptions e.value.options
  unchanged : e.fault? ≠ none → e.value = m

variable {m : Message} {name : Opt.Name} {value : Opt.Value} {possible possible' : Prop}
  {e : Edited Message}

theorem Sets.congr (h : m.Sets name value possible e) (hiff : possible ↔ possible') :
    m.Sets name value possible' e :=
  propext hiff ▸ h

/-- An option that is to have a value takes the place of those of its name, if the value is one that
    it can have and it has a meaning in the message. -/
theorem sets_replace (hlegal : m.options.LegalUnder m.code) {made : Except Fault Opt}
    (hmade : ∀ o, made = .ok o ↔ o.name = name ∧ o.value = value) :
    m.Sets name value (name.occurrence m.code ≠ .never ∧ value.Fits name)
      ((m.options.replace m.code made).map m.withOptions) := by
  -- No option can be made of a value that does not fit, and then nothing is changed.
  cases made with
  | error fault =>
    have hnot : ¬ value.Fits name := by
      intro hfits
      obtain ⟨o, ho⟩ := Opt.exists_value_eq_iff.2 hfits
      cases (hmade o).2 ho
    have hnever : ∀ {p : Prop}, (m.options.replace m.code (.error fault)).fault? = none → p :=
      fun h => by cases h
    exact ⟨⟨hnever, fun h => absurd h.1.2 hnot⟩, hnever, hnever, hnever, fun _ => rfl⟩
  | ok o =>
    obtain ⟨rfl, rfl⟩ := (hmade o).1 rfl
    -- The option fits, so it is left to its meaning and the room for it.
    refine ⟨Options.replace_done_iff.trans ?_, fun h => ?_, fun h => ?_, fun _ => rfl, fun h => ?_⟩
    · rw [and_iff_left o.fits]
      exact Iff.rfl
    · exact congrArg (List.map Opt.value) (Options.replace_of_done h).1
    · exact (Options.replace_of_done h).2
    · exact congrArg m.withOptions (hlegal.replace_of_refused h)

/-- What a setter of a small number does. -/
theorem sets_uint (hlegal : m.options.LegalUnder m.code) {n : Nat} (hf : name.format = .uint)
    (hmin : name.entry.minLength = 0) (hmax : name.entry.maxLength = 2) :
    m.Sets name (.uint n (BigEndian.width n)) (name.occurrence m.code ≠ .never ∧ n < 65536)
      ((m.options.replace m.code (Opt.uint name n)).map m.withOptions) := by
  refine (sets_replace hlegal fun _ => Opt.uint_eq_ok_iff).congr ?_
  rw [Opt.fits_uint_iff hf hmin, hmax]
  exact Iff.rfl

/-- What the setter of the token does. -/
theorem sets_token (hlegal : m.options.LegalUnder m.code)
    (hcode : m.code.isRequest ∨ m.code.isResponse) (token : Bytes) :
    m.Sets .token (.octets token) (1 ≤ token.length ∧ token.length ≤ 8) (m.setToken token) := by
  refine (sets_replace hlegal fun _ => Opt.octets_eq_ok_iff).congr ?_
  rw [Opt.fits_octets_iff rfl, Opt.occurrence_token hcode]
  exact and_iff_right (by decide)

/-- Setting the token, the media type or the sequence number of a request or a response whose
    options were added under its own code puts one option in the place of another, or changes
    nothing at all. It works just if the value has the right size, the option has a meaning in the
    message, and there is one of its name or room for it. -/
theorem settings :
    (∀ r : Request, Options.Reachable (· = r.message.code) r.message.options →
      (∀ token : Bytes,
        r.message.Sets .token (.octets token) (1 ≤ token.length ∧ token.length ≤ 8)
            ((r.setToken token).map Request.message) ∧
          (r.setToken token).map Request.message = r.message.setToken token) ∧
      (∀ mediaType, r.message.Sets .contentType (.uint mediaType (BigEndian.width mediaType))
        (Opt.Name.contentType.occurrence r.message.code ≠ .never ∧ mediaType < 65536)
        ((r.setContentType mediaType).map Request.message)) ∧
      r.message.Sets .observeRequest (.uint 0 (BigEndian.width 0))
        (Opt.Name.observeRequest.occurrence r.message.code ≠ .never)
        (r.setObserve.map Request.message)) ∧
    ∀ r : Response, Options.Reachable (· = r.message.code) r.message.options →
      (∀ token : Bytes,
        r.message.Sets .token (.octets token) (1 ≤ token.length ∧ token.length ≤ 8)
            ((r.setToken token).map Response.message) ∧
          (r.setToken token).map Response.message = r.message.setToken token ∧
          (r.setToken token).value.isNotification = r.isNotification) ∧
      (∀ mediaType, r.message.Sets .contentType (.uint mediaType (BigEndian.width mediaType))
          (Opt.Name.contentType.occurrence r.message.code ≠ .never ∧ mediaType < 65536)
          ((r.setContentType mediaType).map Response.message) ∧
        (r.setContentType mediaType).value.isNotification = r.isNotification) ∧
      ∀ sequence, r.message.Sets .observeResponse (.uint sequence (BigEndian.width sequence))
          (Opt.Name.observeResponse.occurrence r.message.code ≠ .never ∧ sequence < 65536)
          ((r.setObserve sequence).map Response.message) ∧
        (r.setObserve sequence).value.isNotification = r.isNotification := by
  -- Each setter sets one option. What it may be differs, and so does the name.
  refine ⟨fun r hr => ?_, fun r hr => ?_⟩
  · have hlegal : r.message.options.LegalUnder r.message.code := hr.legalUnder
    exact ⟨fun token => ⟨sets_token hlegal (.inl r.isRequest) token, rfl⟩,
      fun _ => sets_uint hlegal rfl rfl rfl,
      (sets_uint hlegal rfl rfl rfl).congr (and_iff_left (by decide))⟩
  · have hlegal : r.message.options.LegalUnder r.message.code := hr.legalUnder
    exact ⟨fun token => ⟨sets_token hlegal (.inr r.isResponse) token, rfl, rfl⟩,
      fun _ => ⟨sets_uint hlegal rfl rfl rfl, rfl⟩, fun _ => ⟨sets_uint hlegal rfl rfl rfl, rfl⟩⟩

/-- A PUT has a media type and as many other options as may be. Another media type takes the place
    of the first one, but a token finds no room. A response gets a sequence number. -/
theorem settings_full :
    let tag (b : UInt8) : Opt :=
      ⟨.ifMatch, .octets [b], rfl, ⟨Nat.zero_le 1, Nat.le_add_left 1 7⟩, trivial⟩
    let options := (∅ : Options).addAll .put
      (⟨.contentType, .uint 40 1, rfl, by decide, by decide⟩ ::
        (List.range 14).map fun i => tag (UInt8.ofNat i))
    let put : Request :=
      ⟨{ type? := some .con, code := .put, id? := none, options := options.value }, rfl⟩
    let content : Response := ⟨.ofHeader none .content none, true, rfl⟩
    Options.Reachable (· = .put) put.message.options ∧ put.message.options.length = 15 ∧
      (put.setContentType 50).fault? = none ∧
      ((put.setContentType 50).value.message.options.values .contentType).map Opt.value =
        [.uint 50 1] ∧
      (put.setToken [7]).fault? ≠ none ∧ (put.setToken [7]).value.message = put.message ∧
      (put.setObserve).value.message = put.message ∧
      Options.Reachable (· = .content) content.message.options ∧
      (content.setObserve 65535).fault? = none ∧ (content.setObserve 65536).fault? ≠ none := by
  intro tag options
  have hreachable : Options.Reachable (· = .put) options.value := by
    refine .addAll .empty ?_ _
    rfl
  have hlength : options.value.length = 15 := by decide +kernel
  have htype : options.value.contains .contentType := by decide +kernel
  have htoken : ¬ options.value.contains .token := by decide +kernel
  -- Only these three facts about the options are used, so that nothing unfolds them below.
  clear_value options
  intro put content
  have hput : Options.Reachable (· = .put) put.message.options := hreachable
  have hcontent : Options.Reachable (· = .content) content.message.options := .empty
  obtain ⟨hrequest, hresponse⟩ := settings
  obtain ⟨hsetToken, hsetType, hsetObserve⟩ := hrequest put hput
  obtain ⟨-, -, hsequence⟩ := hresponse content hcontent
  have hmeaning : Opt.Name.contentType.occurrence put.message.code ≠ .never := by
    change Opt.Name.contentType.occurrence .put ≠ .never
    decide
  have hdone : (put.setContentType 50).fault? = none :=
    (hsetType 50).done_iff.2 ⟨⟨hmeaning, by decide⟩, .inl htype⟩
  have hwidth : BigEndian.width 50 = 1 := by
    rw [BigEndian.width, dif_neg (by decide), BigEndian.width, dif_pos (by decide)]
  have hrefused : (put.setToken [7]).fault? ≠ none := by
    intro h
    rcases ((hsetToken [7]).1.done_iff.1 h).2 with hthere | hroom
    · exact htoken hthere
    · exact Nat.lt_irrefl _ (hlength ▸ hroom)
  have hobserve : put.setObserve.fault? ≠ none := fun h => (hsetObserve.done_iff.1 h).1 rfl
  refine ⟨hput, hlength, hdone, ?_, hrefused, (hsetToken [7]).1.unchanged hrefused,
    hsetObserve.unchanged hobserve, hcontent, ?_, ?_⟩
  · rw [← hwidth]
    exact (hsetType 50).values hdone
  · exact (hsequence 65535).1.done_iff.2 ⟨⟨by decide, by decide⟩, .inr (by decide)⟩
  · exact fun h => absurd ((hsequence 65536).1.done_iff.1 h).1.2 (by decide)

end Message

end Coap
