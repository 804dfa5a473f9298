import Liano.Http.ChunkedBody

/-! What the calls for a body come to, in whatever buffers the body arrives. -/
namespace Liano.Http

open List

variable {P Q : Bytes → Prop} {p p' : HttpBodyParser} {c : UInt8} {rest body out data : Bytes} {f : HttpBodyParserCallback}
  {buffers : List Bytes}

/-- The data that the callback has got, HttpIsMessageComplete and HttpGetEntityLength. -/
structure Outcome where
  data : Bytes
  complete : Bool
  entityLength : Option Nat
deriving DecidableEq, Repr

def outcomeOf (p : HttpBodyParser) (data : Bytes) : Outcome :=
  ⟨data, httpIsMessageComplete p, httpGetEntityLength p⟩

def ComesTo (f : HttpBodyParserCallback) (p : HttpBodyParser) (buffers : List Bytes) (o : Outcome) :
    Prop := ∃ n, ∀ fuel, n ≤ fuel → ∃ r, parseBuffers f fuel p buffers [] = some r ∧
    outcomeOf r.parser (eventsData r.events) = o

def AlwaysComesTo (f : HttpBodyParserCallback) (p : HttpBodyParser) (body : Bytes) (o : Outcome) : Prop :=
  ∀ buffers : List Bytes, (∀ b ∈ buffers, b ≠ []) → buffers.flatten = body → ComesTo f p buffers o

def Fed.outcome : Fed → Option Outcome
  | .going p data => some (outcomeOf p data)
  | .failed _ p data => some (outcomeOf p data)
  | .overrun => none

variable {o : Outcome} {status : EfiStatus} {method : EfiHttpMethod} {statusCode : EfiHttpStatusCode}
  {headers : List EfiHttpHeader}

theorem comesTo_iff_of_agrees {fed : Fed} (h : fed.Agrees fun fuel => parseBuffers f fuel p buffers []) :
    ComesTo f p buffers o ↔ fed.outcome = some o := by
  have hres : ∀ {n r}, (∀ fuel, n ≤ fuel → parseBuffers f fuel p buffers [] = some r) →
      (ComesTo f p buffers o ↔ some (outcomeOf r.parser (eventsData r.events)) = some o) := by
    intro n r hrun
    constructor
    · rintro ⟨k,hcomes⟩
      obtain ⟨r',hr',ho⟩ := hcomes (n+k) (Nat.le_add_left _ _)
      rw [hrun (n+k) (Nat.le_add_right _ _)] at hr'
      cases hr'
      exact congrArg some ho
    · exact fun ho => ⟨n, fun fuel hfuel => ⟨r, hrun fuel hfuel, Option.some.inj ho⟩⟩
  cases fed with
  | going p₁ data₁ =>
    obtain ⟨n,events,rfl,hrun⟩ := h
    exact hres hrun
  | failed status p₁ data₁ =>
    obtain ⟨-,n,events,rfl,hrun⟩ := h
    exact hres hrun
  | overrun =>
    constructor
    · rintro ⟨n,hcomes⟩
      obtain ⟨r,hr,-⟩ := hcomes n le_rfl
      exact absurd ((h n).symm.trans hr) nofun
    · nofun

theorem startBody_idem (p : HttpBodyParser) : startBody (startBody p) = startBody p := by
  by_cases hst : p.state = .bodyStart
  · have hnot : (startBody p).state ≠ .bodyStart := by
      unfold startBody
      rw [if_pos hst]
      split <;> exact nofun
    exact if_neg hnot
  · have hsame : startBody p = p := if_neg hst
    rw [hsame, hsame]

theorem startBody_ignoreBody (p : HttpBodyParser) : (startBody p).ignoreBody = p.ignoreBody := by
  unfold startBody
  split <;> rfl

theorem parseBuffers_startBody (hnoticed : p.ignoreBody = false) (hbody : body ≠ []) (fuel : Nat) :
    parseBuffers f fuel p (body :: buffers) [] = parseBuffers f fuel (startBody p) (body :: buffers) [] := by
  have hlen : body.length ≠ 0 := fun h => hbody (length_eq_zero_iff.mp h)
  have hcall : httpParseMessageBody f fuel p body = httpParseMessageBody f fuel (startBody p) body := by
    unfold httpParseMessageBody
    rw [startBody_idem, startBody_ignoreBody, hnoticed, if_neg hlen, if_neg hlen]
    rfl
  rw [parseBuffers, parseBuffers, hcall]

theorem outcomeOf_startBody (hst : p.state = .bodyStart) :
    outcomeOf (startBody p) data = outcomeOf p data := by
  have hcompl : httpIsMessageComplete (startBody p) = httpIsMessageComplete p := by
    unfold httpIsMessageComplete startBody
    rw [if_pos hst, hst]
    split <;> rfl
  have hlen : httpGetEntityLength (startBody p) = httpGetEntityLength p := by
    unfold httpGetEntityLength startBody
    rw [if_pos hst]
  unfold outcomeOf
  rw [hcompl, hlen]

theorem alwaysComesTo_iff (hf : Accepting f) (hst : p.state = .bodyStart)
    (hready : Ready (startBody p)) :
    AlwaysComesTo f p body o ↔ (feed (startBody p) body []).outcome = some o := by
  have hnoticed : p.ignoreBody = false := (startBody_ignoreBody p).symm.trans hready.noticed
  have hone : ∀ {buffers : List Bytes}, (∀ b ∈ buffers, b ≠ []) → buffers ≠ [] →
      (ComesTo f p buffers o ↔ (feed (startBody p) buffers.flatten []).outcome = some o) := by
    intro buffers hbufs hne
    obtain ⟨b,bs,rfl⟩ := exists_cons_of_ne_nil hne
    have hagrees := @parseBuffers_agrees (startBody p) [] f hf hready (b :: bs) hbufs
    refine Iff.trans ?_ (comesTo_iff_of_agrees hagrees)
    unfold ComesTo
    simp only [parseBuffers_startBody hnoticed (hbufs b mem_cons_self)]
  have hnone : ComesTo f p [] o ↔ (feed (startBody p) [] []).outcome = some o := by
    show _ ↔ some (outcomeOf (startBody p) []) = some o
    rw [outcomeOf_startBody hst]
    constructor
    · rintro ⟨n,h⟩
      obtain ⟨r,hr,ho⟩ := h n le_rfl
      cases hr
      exact congrArg some ho
    · exact fun ho => ⟨0, fun fuel _ => ⟨_, rfl, Option.some.inj ho⟩⟩
  constructor
  · intro h
    by_cases hbody : body = []
    · subst hbody
      exact hnone.mp (h [] nofun rfl)
    have hsingle : ∀ b ∈ [body], b ≠ [] := by
      intro b hb
      rw [mem_singleton] at hb
      exact hb ▸ hbody
    have hflatten : [body].flatten = body := by simp
    have hcomes := (hone hsingle nofun).mp (h [body] hsingle hflatten)
    rwa [hflatten] at hcomes
  · rintro h buffers hbufs rfl
    by_cases hne : buffers = []
    · subst hne
      exact hnone.mpr h
    · exact (hone hbufs hne).mpr h

theorem feedSize_failed (hst : p.state ≠ .complete)
    (h : feedSize p c data = .failed status p' body) : p'.state ≠ .complete := by
  unfold feedSize at h
  split at h
  · split at h
    · cases h
    split at h
    · cases h
    · cases h
      exact nofun
  split at h
  · cases h
    exact hst
  · cases h

theorem feedByte_failed (h : feedByte p c data = .failed status p' body) : p'.state ≠ .complete := by
  have hmax : ∀ {q : HttpBodyParser} {s d},
      Fed.failed s { q with state := .stateMax } d = .failed status p' body → p'.state ≠ .complete := by
    intro q s d heq
    cases heq
    exact nofun
  unfold feedByte at h
  cases hst : p.state with
  | stateMax =>
    rw [hst] at h
    cases h
    rw [hst]
    exact nofun
  | chunkSizeStart =>
    rw [hst] at h
    have hsize : ({ p with currentChunkSize := 0, state := .chunkSize } : HttpBodyParser).state ≠
        .complete := nofun
    exact feedSize_failed hsize h
  | chunkSize =>
    rw [hst] at h
    exact feedSize_failed (by rw [hst]; exact nofun) h
  | bodyIdentity =>
    rw [hst] at h
    dsimp only at h
    split at h <;> cases h
  | chunkSizeEndCR =>
    rw [hst] at h
    dsimp only at h
    split at h
    · exact hmax h
    · split at h <;> cases h
  | lastCRLFEnd =>
    rw [hst] at h
    dsimp only at h
    split at h
    · cases h
    · exact hmax h
  | chunkDataEnd =>
    rw [hst] at h
    dsimp only at h
    split at h
    · cases h
    · exact hmax h
  | chunkDataEndCR =>
    rw [hst] at h
    dsimp only at h
    split at h
    · exact hmax h
    · cases h
  | _ =>
    rw [hst] at h
    cases h

theorem feed_failed (h : feed p rest data = .failed status p' body) : p'.state ≠ .complete := by
  induction rest generalizing p data with
  | nil => cases h
  | cons c rest ih =>
    cases hbyte : feedByte p c data with
    | going p₁ data₁ =>
      rw [feed_of_going hbyte] at h
      exact ih h
    | failed status₁ p₁ data₁ =>
      rw [feed_of_failed hbyte] at h
      cases h
      exact feedByte_failed hbyte
    | overrun =>
      rw [feed_of_overrun hbyte] at h
      cases h

theorem outcome_complete (ho : (feed p body []).outcome = some o) :
    o.complete = true ↔ Completes p body o.data := by
  unfold Completes
  cases hfeed : feed p body [] with
  | going p₁ data₁ =>
    rw [hfeed] at ho
    cases ho
    show httpIsMessageComplete p₁ = true ↔ _
    unfold httpIsMessageComplete
    rw [beq_iff_eq]
    constructor
    · exact fun h => ⟨p₁, rfl, h⟩
    · rintro ⟨p₂,heq,h⟩
      cases heq
      exact h
  | failed status p₁ data₁ =>
    rw [hfeed] at ho
    cases ho
    show httpIsMessageComplete p₁ = true ↔ _
    unfold httpIsMessageComplete
    rw [beq_iff_eq]
    constructor
    · exact fun h => absurd h (feed_failed hfeed)
    · rintro ⟨p₂,heq,-⟩
      cases heq
  | overrun =>
    rw [hfeed] at ho
    cases ho

theorem outcome_of_completes (h : Completes p body out)
    (ho : (feed p body []).outcome = some o) : o.complete = true ∧ o.data = out := by
  obtain ⟨p',hfeed,hst⟩ := h
  rw [hfeed] at ho
  cases ho
  exact ⟨beq_iff_eq.mpr hst, rfl⟩

def Fed.Chunked : Fed → Prop
  | .going p _ => p.state ≠ .bodyIdentity
  | _ => True

theorem feedSize_chunked (hst : p.state ≠ .bodyIdentity) : (feedSize p c data).Chunked := by
  unfold feedSize
  repeat' split
  all_goals first | trivial | exact hst | exact nofun

theorem feedByte_chunked (hst : p.state ≠ .bodyIdentity) : (feedByte p c data).Chunked := by
  have hif : ∀ {q : Prop} [Decidable q] {s : HttpBodyParseState}, s ≠ .bodyIdentity →
      (if q then { p with state := s } else p).state ≠ .bodyIdentity := by
    intro q _ s hs
    split
    · exact hs
    · exact hst
  have hstates : ∀ {q : Prop} [Decidable q] {s t : HttpBodyParseState}, s ≠ .bodyIdentity →
      t ≠ .bodyIdentity → (if q then s else t) ≠ .bodyIdentity := by
    intro q _ s t hs ht
    split
    · exact hs
    · exact ht
  unfold feedByte
  split
  case h_1 => trivial
  case h_2 h => exact absurd h hst
  case h_3 => exact feedSize_chunked nofun
  case h_4 => exact feedSize_chunked hst
  case h_5 => exact hif nofun
  case h_7 => exact hstates nofun nofun
  case h_9 => exact hif nofun
  case h_10 => exact hstates nofun nofun
  all_goals repeat' split
  all_goals first | trivial | exact nofun

theorem feedByte_overrun (hready : Ready p) (hst : p.state ≠ .bodyIdentity)
    (h : feedByte p c data = .overrun) : p.state = .complete := by
  unfold feedByte at h
  cases hs : p.state with
  | complete => rfl
  | bodyStart => exact absurd hs hready.started
  | bodyIdentity => exact absurd hs hst
  | _ =>
    rw [hs] at h
    unfold feedSize at h
    dsimp only at h
    repeat' split at h
    all_goals cases h

theorem feed_overrun (hready : Ready p) (hst : p.state ≠ .bodyIdentity)
    (h : feed p rest data = .overrun) : ∃ body more p' data', rest = body ++ more ∧ more ≠ [] ∧
      feed p body data = .going p' data' ∧ p'.state = .complete := by
  induction rest generalizing p data with
  | nil => cases h
  | cons c rest ih =>
    have hchunked := @feedByte_chunked p c data hst
    cases hbyte : feedByte p c data with
    | going p₁ data₁ =>
      rw [hbyte] at hchunked
      rw [feed_of_going hbyte] at h
      obtain ⟨body,more,p',data',rfl,hmore,hfeed,hcompl⟩ := ih (feedByte_ready hready hbyte) hchunked h
      exact ⟨c :: body, more, p', data', rfl, hmore, (feed_of_going hbyte).trans hfeed, hcompl⟩
    | failed status p₁ data₁ =>
      rw [feed_of_failed hbyte] at h
      cases h
    | overrun => exact ⟨[], c :: rest, p, data, rfl, nofun, rfl, feedByte_overrun hready hst hbyte⟩

theorem feed_of_completes {more : Bytes} (h : Completes p body out) (hmore : more ≠ []) :
    feed p (body ++ more) [] = .overrun := by
  obtain ⟨p',hfeed,hst⟩ := h
  obtain ⟨c,rest,rfl⟩ := exists_cons_of_ne_nil hmore
  rw [feed_append, hfeed]
  exact feed_of_overrun (feedByte_complete hst)

theorem decimalDigits_lt {s : Bytes} {n : Nat} (hn : n < 2^64) : (decimalDigits s n).2 < 2^64 := by
  induction s generalizing n with
  | nil => exact hn
  | cons c s ih =>
    unfold decimalDigits
    split
    · split
      · exact Nat.sub_lt (by decide) (by decide)
      · have hc := c.toNat_lt
        exact ih (by omega)
    · exact hn

theorem httpIoParseContentLengthHeader_lt (headers : List EfiHttpHeader) :
    (httpIoParseContentLengthHeader headers 0).2 < 2^64 := by
  unfold httpIoParseContentLengthHeader
  split
  · decide
  unfold asciiStrDecimalToUintnS
  split
  · decide
  · exact decimalDigits_lt (by decide)

structure Fresh (p : HttpBodyParser) : Prop where
  start : p.state = .bodyStart
  noticed : p.ignoreBody = false
  length : p.contentLength < 2^64

theorem httpInitMsgParser_fresh (h : (httpInitMsgParser method statusCode headers).ignoreBody = false) :
    Fresh (httpInitMsgParser method statusCode headers) := by
  refine ⟨?_, h, httpIoParseContentLengthHeader_lt headers⟩
  change httpIoNoMessageBody method statusCode = false at h
  unfold httpInitMsgParser
  rw [h]
  rfl

theorem httpInitMsgParser_complete (h : (httpInitMsgParser method statusCode headers).ignoreBody = true) :
    (httpInitMsgParser method statusCode headers).state = .complete := if_pos h

theorem Fresh.startBody_eq (h : Fresh p) : startBody p = { p with
    parsedBodyLength := 0
    state := if p.isChunked = true then .chunkSizeStart else .bodyIdentity } := if_pos h.start

theorem Fresh.ready (h : Fresh p) : Ready (startBody p) := by
  rw [h.startBody_eq]
  refine ⟨?_, ?_, h.noticed, h.length, fun _ => Nat.zero_le _, ?_⟩
  · dsimp only
    split <;> exact nofun
  · dsimp only
    split <;> exact nofun
  · dsimp only
    split <;> exact nofun

theorem Fresh.identity (h : Fresh p) (hid : p.isChunked = false) : (startBody p).state = .bodyIdentity ∧
    (startBody p).contentLength = p.contentLength ∧ (startBody p).parsedBodyLength = 0 := by
  rw [h.startBody_eq, hid]
  exact ⟨rfl, rfl, rfl⟩

theorem Fresh.feed_identity (h : Fresh p) (hid : p.isChunked = false)
    (hle : body.length ≤ p.contentLength) : ∃ p', feed (startBody p) body [] = .going p' body := by
  obtain ⟨hst,hlen,hparsed⟩ := h.identity hid
  cases body with
  | nil => exact ⟨_, rfl⟩
  | cons c rest =>
    have hfeed := @Http.feed_identity (startBody p) (c :: rest) [] (c :: rest).length hst
      (Nat.succ_pos _) (by omega) le_rfl
    rw [drop_length, take_length] at hfeed
    exact ⟨_, hfeed⟩

theorem Fresh.feed_identity_overrun (h : Fresh p) (hid : p.isChunked = false)
    (hlt : p.contentLength < body.length) : feed (startBody p) body [] = .overrun := by
  obtain ⟨hst,hlen,hparsed⟩ := h.identity hid
  cases hzero : p.contentLength with
  | zero =>
    obtain ⟨c,rest,rfl⟩ := exists_cons_of_length_pos (lt_of_le_of_lt (Nat.zero_le _) hlt)
    have hbyte : feedByte (startBody p) c [] = .overrun := by
      unfold feedByte
      rw [hst]
      exact if_pos (hparsed.trans (hlen.trans hzero).symm)
    exact feed_of_overrun hbyte
  | succ n =>
    have hfeed := @Http.feed_identity (startBody p) body [] p.contentLength hst
      (by omega) (by omega) (by omega)
    rw [hfeed, hparsed, hlen, zero_add, if_pos rfl]
    obtain ⟨c,rest,hrest⟩ := exists_cons_of_length_pos
      (l := body.drop p.contentLength) (by rw [length_drop]; omega)
    rw [hrest]
    exact feed_of_overrun (feedByte_complete rfl)

/-- One outcome in whatever buffers the body arrives: the message is complete where the bytes begin with
a chunked body, whose sizes have a digit at least, and the data are those of its chunks; without a
transfer coding they are the first bytes. -/
structure Parses (f : HttpBodyParserCallback) (p : HttpBodyParser) (body : Bytes) (o : Outcome) : Prop where
  always : AlwaysComesTo f p body o
  complete : p.ignoreBody = false → p.isChunked = true → (o.complete = true ↔
    ∃ b out, b <+: body ∧ ChunkedBody (· ≠ []) b out)
  chunks : p.ignoreBody = false → p.isChunked = true → ∀ b out, b <+: body →
    ChunkedBody (· ≠ []) b out → o.data = out
  identity : p.ignoreBody = false → p.isChunked = false → o.data = body.take p.contentLength

/-- Nothing stands behind the end of the body. A chunked body ends where the sizes can also do without
digits or be larger than the parser takes, and there neither is the case. -/
def EndsWithBody (p : HttpBodyParser) (body : Bytes) : Prop := p.ignoreBody = false →
    (p.isChunked = true → ∀ b out, b <+: body → ChunkedBody Fits b out ∨ ChunkedBody (· ≠ []) b out →
        b = body ∧ ChunkedBody (fun digits => Fits digits ∧ digits ≠ []) b out) ∧
    (p.isChunked = false → body.length ≤ p.contentLength)

theorem chunkedBody_mono (himp : ∀ digits, P digits → Q digits) (h : ChunkedBody P body out) :
    ChunkedBody Q body out := by
  induction h with
  | last hdigits hP hext hzero htrailer => exact .last hdigits (himp _ hP) hext hzero htrailer
  | chunk hdigits hP hext hne hdata _ ih => exact .chunk hdigits (himp _ hP) hext hne hdata ih

theorem parseBuffers_ignoreBody (hignore : p.ignoreBody = true) (hst : p.state = .complete)
    (hbufs : ∀ b ∈ buffers, b ≠ []) (fuel : Nat) :
    parseBuffers f fuel p buffers [] = some ⟨.success, p, []⟩ := by
  induction buffers with
  | nil => rfl
  | cons b buffers ih =>
    have hb : b.length ≠ 0 := fun h => hbufs b mem_cons_self (length_eq_zero_iff.mp h)
    have hsame : { p with state := .complete } = p := by rw [← hst]
    have hcall : httpParseMessageBody f fuel p b = some ⟨.success, p, []⟩ := by
      unfold httpParseMessageBody
      rw [if_neg hb, if_pos hignore, hsame]
    rw [parseBuffers, hcall]
    exact ih fun b hb => hbufs b (mem_cons_of_mem _ hb)

theorem Fresh.parses_identity (h : Fresh p) (hf : Accepting f) (hid : p.isChunked = false) :
    (∃ o, Parses f p body o) ↔ body.length ≤ p.contentLength := by
  constructor
  · rintro ⟨o,ho⟩
    by_contra hlt
    have hoverrun := h.feed_identity_overrun hid (Nat.lt_of_not_le hlt)
    have hcomes := (alwaysComesTo_iff hf h.start h.ready).mp ho.always
    rw [hoverrun] at hcomes
    cases hcomes
  · intro hle
    obtain ⟨p',hfeed⟩ := h.feed_identity hid hle
    refine ⟨outcomeOf p' body, ?_, ?_, ?_, ?_⟩
    · refine (alwaysComesTo_iff hf h.start h.ready).mpr ?_
      rw [hfeed]
      rfl
    · exact fun _ hchunked => absurd (hid.symm.trans hchunked) Bool.false_ne_true
    · exact fun _ hchunked => absurd (hid.symm.trans hchunked) Bool.false_ne_true
    · exact fun _ _ => (take_of_length_le hle).symm

theorem Fresh.parses_chunked (h : Fresh p) (hf : Accepting f) (hchunked : p.isChunked = true) :
    (∃ o, Parses f p body o) ↔ ∀ b out, b <+: body → ChunkedBody Fits b out ∨ ChunkedBody (· ≠ []) b out →
        b = body ∧ ChunkedBody (fun digits => Fits digits ∧ digits ≠ []) b out := by
  have hst : (startBody p).state = .chunkSizeStart := by
    rw [h.startBody_eq, hchunked]
    rfl
  have hgrammar : ∀ {b out}, Completes (startBody p) b out ↔ ChunkedBody Fits b out :=
    completes_iff_chunkedBody h.ready hst
  constructor
  · rintro ⟨o,ho⟩ b out ⟨more,rfl⟩ hbody
    have hcomes := (alwaysComesTo_iff hf h.start h.ready).mp ho.always
    -- the parser gets to the end of a body with sizes that it takes
    have hends : ∀ {b' out'}, b' <+: b ++ more → ChunkedBody Fits b' out' → b' = b ++ more := by
      rintro b' out' ⟨more',heq⟩ hfits
      by_cases hmore : more' = []
      · rw [← heq, hmore, append_nil]
      have hoverrun := feed_of_completes (hgrammar.mpr hfits) hmore
      rw [heq] at hoverrun
      rw [hoverrun] at hcomes
      cases hcomes
    obtain hfits | hdigs := hbody
    · have hall := hends ⟨more, rfl⟩ hfits
      have hcompletes := hgrammar.mpr hfits
      rw [hall] at hcompletes
      have hcompl := (outcome_of_completes hcompletes hcomes).1
      obtain ⟨b',out',⟨more',heq⟩,hdigs⟩ := (ho.complete h.noticed hchunked).mp hcompl
      exact ⟨hall, (chunkedBody_unique hfits hdigs heq.symm).2⟩
    have hcompl := (ho.complete h.noticed hchunked).mpr ⟨b, out, ⟨more, rfl⟩, hdigs⟩
    have hfits := hgrammar.mp ((outcome_complete hcomes).mp hcompl)
    obtain ⟨hsame,hboth⟩ := chunkedBody_unique hdigs hfits (append_nil _).symm
    exact ⟨hsame, chunkedBody_mono (fun digits hd => ⟨hd.2, hd.1⟩) hboth⟩
  · intro hcond
    have hcomes : ∃ o, (feed (startBody p) body []).outcome = some o := by
      cases hfeed : feed (startBody p) body [] with
      | going p' data => exact ⟨_, rfl⟩
      | failed status p' data => exact ⟨_, rfl⟩
      | overrun =>
        have hne : (startBody p).state ≠ .bodyIdentity := by
          rw [hst]
          exact nofun
        obtain ⟨b,more,p',data,rfl,hmore,hgoing,hcompl⟩ := feed_overrun h.ready hne hfeed
        have hfits := hgrammar.mp ⟨p', hgoing, hcompl⟩
        obtain ⟨hall,-⟩ := hcond b data ⟨more, rfl⟩ (.inl hfits)
        exact absurd (append_right_eq_self.mp hall.symm) hmore
    obtain ⟨o,ho⟩ := hcomes
    refine ⟨o, (alwaysComesTo_iff hf h.start h.ready).mpr ho, fun _ _ => ?_, fun _ _ => ?_, ?_⟩
    · rw [outcome_complete ho, hgrammar]
      constructor
      · intro hfits
        obtain ⟨-,hboth⟩ := hcond body o.data (prefix_refl _) (.inl hfits)
        exact ⟨body, o.data, prefix_refl _, chunkedBody_mono (fun _ hd => hd.2) hboth⟩
      · rintro ⟨b,out,hpre,hdigs⟩
        obtain ⟨rfl,hboth⟩ := hcond b out hpre (.inr hdigs)
        have hcompletes := hgrammar.mpr (chunkedBody_mono (fun _ hd => hd.1) hboth)
        exact hgrammar.mp ((outcome_complete ho).mp (outcome_of_completes hcompletes ho).1)
    · intro b out hpre hdigs
      obtain ⟨rfl,hboth⟩ := hcond b out hpre (.inr hdigs)
      have hcompletes := hgrammar.mpr (chunkedBody_mono (fun _ hd => hd.1) hboth)
      exact (outcome_of_completes hcompletes ho).2
    · exact fun _ hid => absurd (hid.symm.trans hchunked) Bool.false_ne_true

/-- The parser does with the bytes of a message what it is to do with them exactly where these end with
the body. -/
theorem httpParseMessageBody_parses_iff (hf : Accepting f) (method : EfiHttpMethod)
    (statusCode : EfiHttpStatusCode) (headers : List EfiHttpHeader) (body : Bytes) :
    (∃ o, Parses f (httpInitMsgParser method statusCode headers) body o) ↔
      EndsWithBody (httpInitMsgParser method statusCode headers) body := by
  cases hignore : (httpInitMsgParser method statusCode headers).ignoreBody with
  | true =>
    have hst := httpInitMsgParser_complete hignore
    constructor
    · exact fun _ h => absurd (hignore.symm.trans h) nofun
    · intro _
      refine ⟨outcomeOf (httpInitMsgParser method statusCode headers) [], ?_, fun h => ?_, fun h => ?_, fun h => ?_⟩
      · intro buffers hbuffers _
        exact ⟨0, fun fuel _ => ⟨_, parseBuffers_ignoreBody hignore hst hbuffers fuel, rfl⟩⟩
      · exact absurd (hignore.symm.trans h) nofun
      · exact absurd (hignore.symm.trans h) nofun
      · exact absurd (hignore.symm.trans h) nofun
  | false =>
    have hfresh := httpInitMsgParser_fresh hignore
    unfold EndsWithBody
    cases hchunked : (httpInitMsgParser method statusCode headers).isChunked with
    | true =>
      rw [hfresh.parses_chunked hf hchunked]
      exact ⟨fun h _ => ⟨fun _ => h, nofun⟩, fun h => (h hignore).1 rfl⟩
    | false =>
      rw [hfresh.parses_identity hf hchunked]
      exact ⟨fun h _ => ⟨nofun, fun _ => h⟩, fun h => (h hignore).2 rfl⟩

/-- The parser takes a body of one chunk and the empty one behind it. -/
theorem httpParseMessageBody_parses_iff_chunked : ∃ o, Parses (fun _ => .success)
    (httpInitMsgParser .get (.other 200) [⟨httpHeaderTransferEncoding, ascii "chunked"⟩])
    (ascii "1\r\nA\r\n0\r\n\r\n") o := by
  have hlast : ChunkedBody (fun digits => Fits digits ∧ digits ≠ []) (ascii "0\r\n\r\n") [] :=
    @ChunkedBody.last _ (ascii "0") [] crlf (by unfold HexDigits; decide +kernel) ⟨Nat.zero_le _, by decide⟩ (.inl rfl) rfl
      .lastCRLF
  have hbody : ChunkedBody (fun digits => Fits digits ∧ digits ≠ []) (ascii "1\r\nA\r\n0\r\n\r\n") (ascii "A") :=
    @ChunkedBody.chunk _ (ascii "1") [] (ascii "A") _ [] (by unfold HexDigits; decide +kernel)
      ⟨by unfold Fits; decide, by decide⟩ (.inl rfl) (by decide) rfl hlast
  refine (httpParseMessageBody_parses_iff (fun _ => rfl) _ _ _ _).mpr fun _ =>
    ⟨fun _ b out ⟨more, hmore⟩ hb => ?_, fun h => absurd h (by decide +kernel)⟩
  rw [← append_nil (ascii _)] at hmore
  rcases hb with hb | hb
  · obtain ⟨heq,hboth⟩ := chunkedBody_unique hb hbody hmore
    exact ⟨heq, chunkedBody_mono (fun _ h => h.2) hboth⟩
  · obtain ⟨heq,hboth⟩ := chunkedBody_unique hb hbody hmore
    exact ⟨heq, chunkedBody_mono (fun _ h => h.2) hboth⟩

/-- With one byte behind a body of one byte the call does not return; and a message is complete where the
size of the last chunk has no digit. -/
theorem not_parses_behind : (¬ ∃ o, Parses (fun _ => .success)
      (httpInitMsgParser .get (.other 200) [⟨httpHeaderContentLength, ascii "1"⟩]) (ascii "AB") o) ∧
    ¬ ∃ o, Parses (fun _ => .success)
      (httpInitMsgParser .get (.other 200) [⟨httpHeaderTransferEncoding, ascii "chunked"⟩])
      (crlf ++ crlf) o := by
  constructor
  · intro h
    have hfresh := @httpInitMsgParser_fresh .get (.other 200) [⟨httpHeaderContentLength, ascii "1"⟩] rfl
    have hle := (hfresh.parses_identity (fun _ => rfl) (by decide +kernel)).mp h
    exact absurd hle (by decide +kernel)
  · intro h
    have hfresh := @httpInitMsgParser_fresh .get (.other 200)
      [⟨httpHeaderTransferEncoding, ascii "chunked"⟩] rfl
    have hends := (hfresh.parses_chunked (fun _ => rfl) (by decide +kernel)).mp h
    have hbody : ChunkedBody Fits (crlf ++ crlf) [] :=
      @ChunkedBody.last Fits [] [] crlf nofun (Nat.zero_le _) (.inl rfl) rfl .lastCRLF
    obtain ⟨-,hboth⟩ := hends _ _ (prefix_refl _) (.inl hbody)
    obtain ⟨digits,ext,tail,heq,hdigs,⟨-,hne⟩,-⟩ := chunkedBody_iff.mp hboth
    obtain ⟨c,rest,rfl⟩ := exists_cons_of_ne_nil hne
    obtain rfl : cr = c := (cons.inj heq).1
    exact absurd (hdigs cr mem_cons_self) (by decide)

end Liano.Http
