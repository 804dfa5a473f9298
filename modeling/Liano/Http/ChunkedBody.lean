import Liano.Http.Feed

/-! The bodies with the chunked transfer coding, and that the parser reaches its last state on these
and delivers their data. -/
namespace Liano.Http

open List

def crlf : Bytes := [cr, lf]

def hexFrom (n : Nat) (digits : Bytes) : Nat := digits.foldl (fun n c => n*16 + httpIoHexCharToUintn c) n

def hexValue (digits : Bytes) : Nat := hexFrom 0 digits

def HexDigits (digits : Bytes) : Prop := ∀ c ∈ digits, netIsHexChar c = true

def ChunkExt (ext : Bytes) : Prop := ext = [] ∨ ∃ e, ext = semicolon :: e ∧ cr ∉ e

inductive Trailer : Bytes → Prop
  | lastCRLF : Trailer crlf
  | line {line rest : Bytes} : line ≠ [] → cr ∉ line → Trailer rest → Trailer (line ++ crlf ++ rest)

/-- A chunked body with the data of its chunks, where the digits of every size are as P says. -/
inductive ChunkedBody (P : Bytes → Prop) : Bytes → Bytes → Prop
  | last {digits ext trailer : Bytes} : HexDigits digits → P digits → ChunkExt ext →
      hexValue digits = 0 → Trailer trailer → ChunkedBody P (digits ++ ext ++ crlf ++ trailer) []
  | chunk {digits ext data rest out : Bytes} : HexDigits digits → P digits → ChunkExt ext →
      hexValue digits ≠ 0 → data.length = hexValue digits → ChunkedBody P rest out →
      ChunkedBody P (digits ++ ext ++ crlf ++ (data ++ crlf ++ rest)) (data ++ out)

def sizeMax : Nat := 2^64-17

def Fits (digits : Bytes) : Prop := hexValue digits ≤ sizeMax

variable {p p' : HttpBodyParser} {c : UInt8} {rest body out data data' more : Bytes}

def Completes (p : HttpBodyParser) (body out : Bytes) : Prop :=
  ∃ p', feed p body [] = .going p' out ∧ p'.state = .complete

theorem completes_nil : Completes p [] out ↔ p.state = .complete ∧ out = [] := by
  constructor
  · rintro ⟨p',hfeed,hst⟩
    cases hfeed
    exact ⟨hst, rfl⟩
  · rintro ⟨hst,rfl⟩
    exact ⟨p, rfl, hst⟩

theorem completes_after (hfeed : feed p body [] = feed p' rest data) :
    Completes p body out ↔ ∃ out', out = data ++ out' ∧ Completes p' rest out' := by
  have hbeh := @feed_behind p' rest data []
  rw [append_nil] at hbeh
  constructor
  · rintro ⟨p₁,hgoing,hst⟩
    rw [hfeed, hbeh] at hgoing
    cases hrest : feed p' rest [] with
    | going p₂ out' =>
      rw [hrest] at hgoing
      cases hgoing
      exact ⟨out', rfl, p₁, hrest, hst⟩
    | failed status p₂ out' =>
      rw [hrest] at hgoing
      cases hgoing
    | overrun =>
      rw [hrest] at hgoing
      cases hgoing
  · rintro ⟨out',rfl,p₁,hgoing,hst⟩
    refine ⟨p₁, ?_, hst⟩
    rw [hfeed, hbeh, hgoing]
    rfl

theorem completes_cons (hbyte : feedByte p c [] = .going p' []) :
    Completes p (c :: rest) out ↔ Completes p' rest out := by
  rw [completes_after (feed_of_going hbyte)]
  constructor
  · rintro ⟨out',rfl,h⟩
    exact h
  · exact fun h => ⟨out, rfl, h⟩

theorem not_completes_of_failed {status : EfiStatus} (hbyte : feedByte p c [] = .failed status p' data) :
    ¬ Completes p (c :: rest) out := by
  rintro ⟨p₁,hgoing,-⟩
  rw [feed_of_failed hbyte] at hgoing
  cases hgoing

theorem not_completes_nil (hst : p.state ≠ .complete) : ¬ Completes p [] out :=
  fun h => hst (completes_nil.mp h).1

theorem completes_complete (hst : p.state = .complete) : Completes p body out ↔ body = [] ∧ out = [] := by
  cases body with
  | nil =>
    rw [completes_nil]
    exact ⟨fun h => ⟨rfl, h.2⟩, fun h => ⟨hst, h.2⟩⟩
  | cons c rest =>
    constructor
    · rintro ⟨p₁,hgoing,-⟩
      rw [feed_of_overrun (feedByte_complete hst)] at hgoing
      cases hgoing
    · rintro ⟨h,-⟩
      cases h

theorem completes_skip (hst : p.state = .chunkExtStart ∨ p.state = .trailer) :
    Completes p body out ↔ ∃ line rest, body = line ++ cr :: rest ∧ cr ∉ line ∧
      Completes { p with state := .chunkSizeEndCR } rest out := by
  induction body with
  | nil =>
    constructor
    · intro h
      obtain hst | hst := hst <;>
        exact absurd h (not_completes_nil (by rw [hst]; exact nofun))
    · rintro ⟨line,rest,h,-⟩
      cases line <;> cases h
  | cons c body ih =>
    have hbyte : feedByte p c [] = .going (if c = cr then { p with state := .chunkSizeEndCR } else p) [] := by
      unfold feedByte
      obtain hst | hst := hst <;> rw [hst]
    rw [completes_cons hbyte]
    by_cases hcr : c = cr
    · rw [if_pos hcr]
      constructor
      · exact fun h => ⟨[], body, by rw [hcr]; rfl, not_mem_nil, h⟩
      · rintro ⟨line,rest,heq,hline,h⟩
        cases line with
        | nil =>
          cases heq
          exact h
        | cons b line =>
          cases heq
          exact absurd (hcr ▸ mem_cons_self) hline
    · rw [if_neg hcr, ih]
      constructor
      · rintro ⟨line,rest,rfl,hline,h⟩
        refine ⟨c :: line, rest, rfl, ?_, h⟩
        rw [mem_cons, not_or]
        exact ⟨fun heq => hcr heq.symm, hline⟩
      · rintro ⟨line,rest,heq,hline,h⟩
        cases line with
        | nil =>
          cases heq
          exact absurd rfl hcr
        | cons b line =>
          cases heq
          exact ⟨line, rest, rfl, fun hmem => hline (mem_cons_of_mem _ hmem), h⟩

theorem completes_expect {expected : UInt8} (hst : p.state ≠ .complete)
    (hbyte : feedByte p expected [] = .going p' [])
    (hother : ∀ c, c ≠ expected → ∃ p₁, feedByte p c [] = .failed .aborted p₁ []) :
    Completes p body out ↔ ∃ rest, body = expected :: rest ∧ Completes p' rest out := by
  cases body with
  | nil =>
    constructor
    · exact fun h => absurd h (not_completes_nil hst)
    · rintro ⟨rest,h,-⟩
      cases h
  | cons c body =>
    by_cases hc : c = expected
    · subst hc
      rw [completes_cons hbyte]
      constructor
      · exact fun h => ⟨body, rfl, h⟩
      · rintro ⟨rest,heq,h⟩
        cases heq
        exact h
    · obtain ⟨p₁,hfailed⟩ := hother c hc
      constructor
      · exact fun h => absurd h (not_completes_of_failed hfailed)
      · rintro ⟨rest,heq,-⟩
        cases heq
        exact absurd rfl hc

theorem completes_chunkSizeEndCR (hst : p.state = .chunkSizeEndCR) :
    Completes p body out ↔ ∃ rest, body = lf :: rest ∧ Completes
      (if p.currentChunkSize = 0 then { p with contentLengthIsValid := true, state := .lastCRLF }
        else { p with state := .chunkDataStart, currentChunkParsedSize := 0 }) rest out := by
  refine completes_expect (by rw [hst]; exact nofun) ?_ ?_
  · unfold feedByte
    rw [hst]
    dsimp only
    rw [if_neg (not_not.mpr rfl)]
    split <;> rfl
  · intro c hc
    refine ⟨{ p with state := .stateMax }, ?_⟩
    unfold feedByte
    rw [hst]
    exact if_pos hc

theorem trailer_iff : Trailer body ↔ body = crlf ∨
    ∃ line rest, body = line ++ crlf ++ rest ∧ line ≠ [] ∧ cr ∉ line ∧ Trailer rest := by
  constructor
  · intro h
    cases h with
    | lastCRLF => exact .inl rfl
    | line hne hcr hrest => exact .inr ⟨_, _, rfl, hne, hcr, hrest⟩
  · rintro (rfl | ⟨line,rest,rfl,hne,hcr,hrest⟩)
    · exact .lastCRLF
    · exact .line hne hcr hrest

theorem completes_lastCRLFEnd (hst : p.state = .lastCRLFEnd) :
    Completes p body out ↔ body = [lf] ∧ out = [] := by
  have hbyte : feedByte p lf [] = .going { p with state := .complete } [] := by
    unfold feedByte
    rw [hst]
    exact if_pos rfl
  have hother : ∀ c, c ≠ lf → ∃ p₁, feedByte p c [] = .failed .aborted p₁ [] := by
    intro c hc
    refine ⟨{ p with state := .stateMax }, ?_⟩
    unfold feedByte
    rw [hst]
    exact if_neg hc
  rw [completes_expect (by rw [hst]; exact nofun) hbyte hother]
  constructor
  · rintro ⟨rest,rfl,h⟩
    obtain ⟨rfl,rfl⟩ := (completes_complete rfl).mp h
    exact ⟨rfl, rfl⟩
  · rintro ⟨rfl,rfl⟩
    exact ⟨[], rfl, (completes_complete rfl).mpr ⟨rfl, rfl⟩⟩

theorem completes_lastCRLF (hst : p.state = .lastCRLF) (hsize : p.currentChunkSize = 0) :
    Completes p body out ↔ Trailer body ∧ out = [] := by
  induction hlen : body.length using Nat.strong_induction_on generalizing p body with
  | _ length ih =>
    cases body with
    | nil =>
      constructor
      · exact fun h => absurd h (not_completes_nil (by rw [hst]; exact nofun))
      · rintro ⟨h,-⟩
        obtain h | ⟨line,rest,h,-⟩ := trailer_iff.mp h
        · cases h
        · cases line <;> cases h
    | cons c body =>
      have hbyte : feedByte p c [] =
          .going { p with state := if c = cr then .lastCRLFEnd else .trailer } [] := by
        unfold feedByte
        rw [hst]
      rw [completes_cons hbyte, trailer_iff]
      by_cases hcr : c = cr
      · rw [if_pos hcr, completes_lastCRLFEnd rfl]
        constructor
        · rintro ⟨rfl,rfl⟩
          exact ⟨.inl (by rw [hcr]; rfl), rfl⟩
        · rintro ⟨h | ⟨line,rest,h,hne,hline,-⟩,rfl⟩
          · cases h
            exact ⟨rfl, rfl⟩
          · -- a trailer line does not begin with a CR
            cases line with
            | nil => exact absurd rfl hne
            | cons b line =>
              cases h
              exact absurd (hcr ▸ mem_cons_self) hline
      · have hnext : ∀ {rest}, rest.length < length → (Completes
            { p with contentLengthIsValid := true, state := .lastCRLF } rest out ↔
              Trailer rest ∧ out = []) := fun hless => ih _ hless rfl hsize rfl
        rw [if_neg hcr, completes_skip (.inr rfl)]
        constructor
        · rintro ⟨line,tail,rfl,hline,hend⟩
          obtain ⟨rest,rfl,h⟩ := (completes_chunkSizeEndCR rfl).mp hend
          rw [if_pos hsize] at h
          have hless : rest.length < length := by
            rw [← hlen]
            simp only [length_cons, length_append]
            omega
          obtain ⟨htrailer,hout⟩ := (hnext hless).mp h
          refine ⟨.inr ⟨c :: line, rest, ?_, nofun, ?_, htrailer⟩, hout⟩
          · rw [append_assoc]
            rfl
          · rw [mem_cons, not_or]
            exact ⟨fun heq => hcr heq.symm, hline⟩
        · rintro ⟨h | ⟨line,rest,h,hne,hline,htrailer⟩,hout⟩
          · cases h
            exact absurd rfl hcr
          · cases line with
            | nil => exact absurd rfl hne
            | cons b line =>
              rw [append_assoc] at h
              cases h
              refine ⟨line, lf :: rest, rfl, fun hmem => hline (mem_cons_of_mem _ hmem), ?_⟩
              refine (completes_chunkSizeEndCR rfl).mpr ⟨rest, rfl, ?_⟩
              rw [if_pos hsize]
              have hless : rest.length < length := by
                rw [← hlen]
                simp only [length_cons, append_eq, length_append, crlf]
                omega
              exact (hnext hless).mpr ⟨htrailer, hout⟩

theorem hexFrom_cons (n : Nat) (c : UInt8) (digits : Bytes) :
    hexFrom n (c :: digits) = hexFrom (n*16 + httpIoHexCharToUintn c) digits := rfl

theorem hexFrom_ge (n : Nat) (digits : Bytes) : n ≤ hexFrom n digits := by
  induction digits generalizing n with
  | nil => exact le_rfl
  | cons c digits ih =>
    have hnext := ih (n*16 + httpIoHexCharToUintn c)
    rw [hexFrom_cons]
    omega

theorem httpIoHexCharToUintn_lt (hhex : netIsHexChar c = true) : httpIoHexCharToUintn c < 16 := by
  have hall : ∀ n : Fin 256, netIsHexChar (UInt8.ofFin n) = true →
      httpIoHexCharToUintn (UInt8.ofFin n) < 16 := by decide +kernel
  exact hall c.toFin hhex

theorem netIsHexChar_semicolon : netIsHexChar semicolon = false := rfl

theorem netIsHexChar_cr : netIsHexChar cr = false := rfl

/-- Digits that continue the size, an extension and the CR, and behind it a body that is taken. -/
def SizeLine (p : HttpBodyParser) (body out : Bytes) : Prop :=
  ∃ digits ext rest, body = digits ++ ext ++ cr :: rest ∧ HexDigits digits ∧ ChunkExt ext ∧
    hexFrom p.currentChunkSize digits ≤ sizeMax ∧ Completes { p with
      currentChunkSize := hexFrom p.currentChunkSize digits
      state := .chunkSizeEndCR } rest out

theorem sizeLine_of_digit (hdig : netIsHexChar c = true) : SizeLine p (c :: body) out ↔
    SizeLine { p with currentChunkSize := p.currentChunkSize*16 + httpIoHexCharToUintn c } body out := by
  constructor
  · rintro ⟨digits,ext,rest,heq,hdigs,hext,hfits,h⟩
    cases digits with
    | nil =>
      obtain rfl | ⟨line,rfl,-⟩ := hext
      · cases heq
        cases netIsHexChar_cr.symm.trans hdig
      · cases heq
        cases netIsHexChar_semicolon.symm.trans hdig
    | cons b digits =>
      cases heq
      exact ⟨digits, ext, rest, rfl, fun b hb => hdigs b (mem_cons_of_mem _ hb), hext, hfits, h⟩
  · rintro ⟨digits,ext,rest,rfl,hdigs,hext,hfits,h⟩
    exact ⟨c :: digits, ext, rest, rfl, forall_mem_cons.mpr ⟨hdig, hdigs⟩, hext, hfits, h⟩

theorem sizeLine_of_end (hend : netIsHexChar c = false) (hsize : p.currentChunkSize ≤ sizeMax) :
    SizeLine p (c :: body) out ↔ ∃ ext rest, c :: body = ext ++ cr :: rest ∧ ChunkExt ext ∧
      Completes { p with state := .chunkSizeEndCR } rest out := by
  constructor
  · rintro ⟨digits,ext,rest,heq,hdigs,hext,-,h⟩
    cases digits with
    | nil => exact ⟨ext, rest, heq, hext, h⟩
    | cons b digits =>
      cases heq
      exact absurd (hdigs c mem_cons_self) (by rw [hend]; exact Bool.false_ne_true)
  · rintro ⟨ext,rest,heq,hext,h⟩
    exact ⟨[], ext, rest, heq, nofun, hext, hsize, h⟩

/-- The byte behind the digits begins an extension, or it is the CR. -/
theorem completes_sizeEnd (hst : p.state = .chunkSize) (hend : netIsHexChar c = false) :
    Completes p (c :: body) out ↔ ∃ ext rest, c :: body = ext ++ cr :: rest ∧ ChunkExt ext ∧
      Completes { p with state := .chunkSizeEndCR } rest out := by
  have hbyte : feedByte p c [] = feedSize p c [] := by
    unfold feedByte
    rw [hst]
  unfold feedSize at hbyte
  rw [if_pos hend] at hbyte
  by_cases hsemicolon : c = semicolon
  · rw [if_pos hsemicolon] at hbyte
    rw [completes_cons hbyte, completes_skip (.inl rfl)]
    constructor
    · rintro ⟨line,rest,rfl,hline,h⟩
      exact ⟨c :: line, rest, rfl, .inr ⟨line, by rw [hsemicolon], hline⟩, h⟩
    · rintro ⟨ext,rest,heq,rfl | ⟨line,rfl,hline⟩,h⟩
      · cases heq
        exact absurd hsemicolon (by decide)
      · cases heq
        exact ⟨line, rest, rfl, hline, h⟩
  rw [if_neg hsemicolon] at hbyte
  by_cases hcr : c = cr
  · rw [if_pos hcr] at hbyte
    rw [completes_cons hbyte]
    constructor
    · exact fun h => ⟨[], body, by rw [hcr]; rfl, .inl rfl, h⟩
    · rintro ⟨ext,rest,heq,rfl | ⟨line,rfl,-⟩,h⟩
      · cases heq
        exact h
      · cases heq
        exact absurd rfl hsemicolon
  · rw [if_neg hcr] at hbyte
    constructor
    · exact fun h => absurd h (not_completes_of_failed hbyte)
    · rintro ⟨ext,rest,heq,rfl | ⟨line,rfl,-⟩,-⟩
      · cases heq
        exact absurd rfl hcr
      · cases heq
        exact absurd rfl hsemicolon

theorem completes_chunkSize (hst : p.state = .chunkSize) (hsize : p.currentChunkSize ≤ sizeMax) :
    Completes p body out ↔ SizeLine p body out := by
  induction body generalizing p with
  | nil =>
    constructor
    · exact fun h => absurd h (not_completes_nil (by rw [hst]; exact nofun))
    · rintro ⟨digits,ext,rest,h,-⟩
      exact absurd h.symm (by simp)
  | cons c body ih =>
    by_cases hhex : netIsHexChar c = false
    · rw [completes_sizeEnd hst hhex, sizeLine_of_end hhex hsize]
    have hdig : netIsHexChar c = true := by
      rw [← Bool.not_eq_false]
      exact hhex
    have hlt := httpIoHexCharToUintn_lt hdig
    have hbyte : feedByte p c [] = feedSize p c [] := by
      unfold feedByte
      rw [hst]
    unfold feedSize at hbyte
    rw [if_neg hhex] at hbyte
    rw [sizeLine_of_digit hdig]
    by_cases hlarge : p.currentChunkSize > (2^64-1-16) / 16
    · rw [if_pos hlarge] at hbyte
      constructor
      · exact fun h => absurd h (not_completes_of_failed hbyte)
      · rintro ⟨digits,-,-,-,-,-,hfits,-⟩
        have hge := hexFrom_ge (p.currentChunkSize*16 + httpIoHexCharToUintn c) digits
        have hsum := le_trans hge hfits
        unfold sizeMax at hsum
        omega
    · rw [if_neg hlarge] at hbyte
      rw [completes_cons hbyte]
      refine ih hst ?_
      show p.currentChunkSize*16 + httpIoHexCharToUintn c ≤ sizeMax
      unfold sizeMax
      omega

theorem completes_chunkDataEnd (hst : p.state = .chunkDataEnd) :
    Completes p body out ↔ ∃ rest, body = crlf ++ rest ∧
      Completes { p with state := .chunkSizeStart } rest out := by
  have hbyte : feedByte p cr [] = .going { p with state := .chunkDataEndCR } [] := by
    unfold feedByte
    rw [hst]
    exact if_pos rfl
  have hother : ∀ c, c ≠ cr → ∃ p₁, feedByte p c [] = .failed .aborted p₁ [] := by
    intro c hc
    refine ⟨{ p with state := .stateMax }, ?_⟩
    unfold feedByte
    rw [hst]
    exact if_neg hc
  rw [completes_expect (by rw [hst]; exact nofun) hbyte hother]
  have hend : ∀ {tail}, Completes { p with state := .chunkDataEndCR } tail out ↔
      ∃ rest, tail = lf :: rest ∧ Completes { p with state := .chunkSizeStart } rest out := by
    intro tail
    refine completes_expect nofun ?_ ?_
    · unfold feedByte
      exact if_neg (not_not.mpr rfl)
    · intro c hc
      refine ⟨{ p with state := .stateMax }, ?_⟩
      exact if_pos hc
  constructor
  · rintro ⟨tail,rfl,htail⟩
    obtain ⟨rest,rfl,h⟩ := hend.mp htail
    exact ⟨rest, rfl, h⟩
  · rintro ⟨rest,rfl,h⟩
    exact ⟨lf :: rest, rfl, hend.mpr ⟨rest, rfl, h⟩⟩

theorem completes_chunkDataStart (hready : Ready p) (hst : p.state = .chunkDataStart)
    (hparsed : p.currentChunkParsedSize = 0) :
    Completes p body out ↔ ∃ data rest out', body = data ++ crlf ++ rest ∧
      data.length = p.currentChunkSize ∧ out = data ++ out' ∧ Completes { p with
        contentLength := toUint64 (p.contentLength+p.currentChunkSize)
        currentChunkParsedSize := p.currentChunkSize
        state := .chunkSizeStart } rest out' := by
  have hlt := hready.chunk hst
  rw [hparsed] at hlt
  -- what is behind the data
  have hall : p.currentChunkSize ≤ body.length → (Completes p body out ↔
      ∃ out', out = body.take p.currentChunkSize ++ out' ∧ ∃ rest,
        body.drop p.currentChunkSize = crlf ++ rest ∧ Completes { p with
          contentLength := toUint64 (p.contentLength+p.currentChunkSize)
          currentChunkParsedSize := p.currentChunkSize
          state := .chunkSizeStart } rest out') := by
    intro hle
    have hfeed := @feed_chunkData p body [] p.currentChunkSize hst hlt (by omega) hle
    rw [hparsed, zero_add, if_pos rfl, nil_append] at hfeed
    rw [completes_after hfeed]
    constructor
    · rintro ⟨out',rfl,h⟩
      exact ⟨out', rfl, (completes_chunkDataEnd rfl).mp h⟩
    · rintro ⟨out',rfl,h⟩
      exact ⟨out', rfl, (completes_chunkDataEnd rfl).mpr h⟩
  constructor
  · intro h
    by_cases hle : p.currentChunkSize ≤ body.length
    · obtain ⟨out',rfl,rest,hrest,h⟩ := (hall hle).mp h
      refine ⟨body.take p.currentChunkSize, rest, out', ?_, ?_, rfl, h⟩
      · rw [append_assoc, ← hrest, take_append_drop]
      · exact (length_take).trans (min_eq_left hle)
    -- the bytes end within the chunk
    cases body with
    | nil => exact absurd h (not_completes_nil (by rw [hst]; exact nofun))
    | cons c body =>
      have hfeed := @feed_chunkData p (c :: body) [] (c :: body).length hst
        (Nat.succ_pos _) (by omega) le_rfl
      rw [hparsed, zero_add, if_neg (by omega), drop_length] at hfeed
      obtain ⟨out',-,h⟩ := (completes_after hfeed).mp h
      exact absurd h (not_completes_nil nofun)
  · rintro ⟨data,rest,out',rfl,hdata,rfl,h⟩
    have hle : p.currentChunkSize ≤ (data ++ crlf ++ rest).length := by
      rw [append_assoc, length_append]
      omega
    refine (hall hle).mpr ⟨out', ?_, rest, ?_, h⟩
    · rw [append_assoc, take_left' hdata]
    · rw [append_assoc, drop_left' hdata]

variable {P Q : Bytes → Prop}

theorem chunkedBody_iff : ChunkedBody P body out ↔ ∃ digits ext tail,
    body = digits ++ ext ++ crlf ++ tail ∧ HexDigits digits ∧ P digits ∧ ChunkExt ext ∧
      (hexValue digits = 0 ∧ Trailer tail ∧ out = [] ∨
        hexValue digits ≠ 0 ∧ ∃ data rest out', tail = data ++ crlf ++ rest ∧
          data.length = hexValue digits ∧ out = data ++ out' ∧ ChunkedBody P rest out') := by
  constructor
  · intro h
    cases h with
    | last hdigs hP hext hzero htrailer =>
      exact ⟨_, _, _, rfl, hdigs, hP, hext, .inl ⟨hzero, htrailer, rfl⟩⟩
    | chunk hdigs hP hext hne hdata hrest =>
      exact ⟨_, _, _, rfl, hdigs, hP, hext, .inr ⟨hne, _, _, _, rfl, hdata, rfl, hrest⟩⟩
  · rintro ⟨digits,ext,tail,rfl,hdigs,hP,hext,hcase⟩
    obtain ⟨hzero,htrailer,rfl⟩ | ⟨hne,data,rest,out',rfl,hdata,rfl,hrest⟩ := hcase
    · exact .last hdigs hP hext hzero htrailer
    · exact .chunk hdigs hP hext hne hdata hrest

theorem completes_chunkSizeStart (hst : p.state = .chunkSizeStart) :
    Completes p body out ↔ ∃ digits ext tail, body = digits ++ ext ++ crlf ++ tail ∧
      HexDigits digits ∧ ChunkExt ext ∧ Fits digits ∧ Completes
        (if hexValue digits = 0 then { p with
            currentChunkSize := hexValue digits, contentLengthIsValid := true, state := .lastCRLF }
          else { p with
            currentChunkSize := hexValue digits
            state := .chunkDataStart
            currentChunkParsedSize := 0 }) tail out := by
  have hstart : Completes p body out ↔
      Completes { p with currentChunkSize := 0, state := .chunkSize } body out := by
    cases body with
    | nil =>
      have hnot : p.state ≠ .complete := by
        rw [hst]
        exact nofun
      exact ⟨fun h => absurd h (not_completes_nil hnot), fun h => absurd h (not_completes_nil nofun)⟩
    | cons c body =>
      have hfeed : feed p (c :: body) [] =
          feed { p with currentChunkSize := 0, state := .chunkSize } (c :: body) [] := by
        rw [feed, feed]
        unfold feedByte
        rw [hst]
      unfold Completes
      rw [hfeed]
  rw [hstart, completes_chunkSize rfl (Nat.zero_le _)]
  constructor
  · rintro ⟨digits,ext,rest,rfl,hdigs,hext,hfits,hline⟩
    obtain ⟨tail,rfl,h⟩ := (completes_chunkSizeEndCR rfl).mp hline
    refine ⟨digits, ext, tail, ?_, hdigs, hext, hfits, h⟩
    exact (append_assoc (digits ++ ext) crlf tail).symm
  · rintro ⟨digits,ext,tail,rfl,hdigs,hext,hfits,h⟩
    refine ⟨digits, ext, lf :: tail, ?_, hdigs, hext, hfits, ?_⟩
    · exact append_assoc (digits ++ ext) crlf tail
    · exact (completes_chunkSizeEndCR rfl).mpr ⟨tail, rfl, h⟩

/-- The parser reaches its last state on the chunked bodies, and delivers the data of their chunks. -/
theorem completes_iff_chunkedBody (hready : Ready p) (hst : p.state = .chunkSizeStart) :
    Completes p body out ↔ ChunkedBody Fits body out := by
  induction hlength : body.length using Nat.strong_induction_on generalizing p body out with
  | _ length ih =>
    rw [completes_chunkSizeStart hst, chunkedBody_iff]
    refine exists_congr fun digits => exists_congr fun ext => exists_congr fun tail => ?_
    constructor
    · rintro ⟨rfl,hdigs,hext,hfits,htail⟩
      refine ⟨rfl, hdigs, hfits, hext, ?_⟩
      by_cases hzero : hexValue digits = 0
      · rw [if_pos hzero, completes_lastCRLF rfl hzero] at htail
        exact .inl ⟨hzero, htail.1, htail.2⟩
      rw [if_neg hzero] at htail
      have hdata : Ready { p with
          currentChunkSize := hexValue digits
          state := .chunkDataStart
          currentChunkParsedSize := 0 } :=
        ⟨nofun, nofun, hready.noticed, hready.length, nofun, fun _ => Nat.pos_of_ne_zero hzero⟩
      obtain ⟨data,rest,out',rfl,hlen,rfl,h⟩ := (completes_chunkDataStart hdata rfl rfl).mp htail
      refine .inr ⟨hzero, data, rest, out', rfl, hlen, rfl, ?_⟩
      have hless : rest.length < length := by
        rw [← hlength]
        simp only [length_append, crlf, length_cons]
        omega
      refine (ih _ hless ?_ ?_ rfl).mp h
      · exact ⟨nofun, nofun, hready.noticed, Nat.mod_lt _ (by decide), nofun, nofun⟩
      · rfl
    · rintro ⟨rfl,hdigs,hfits,hext,hcase⟩
      refine ⟨rfl, hdigs, hext, hfits, ?_⟩
      obtain ⟨hzero,htrailer,hout⟩ | ⟨hne,data,rest,out',rfl,hlen,rfl,hrest⟩ := hcase
      · rw [if_pos hzero]
        exact (completes_lastCRLF rfl hzero).mpr ⟨htrailer, hout⟩
      rw [if_neg hne]
      have hdata : Ready { p with
          currentChunkSize := hexValue digits
          state := .chunkDataStart
          currentChunkParsedSize := 0 } :=
        ⟨nofun, nofun, hready.noticed, hready.length, nofun, fun _ => Nat.pos_of_ne_zero hne⟩
      refine (completes_chunkDataStart hdata rfl rfl).mpr ⟨data, rest, out', rfl, hlen, rfl, ?_⟩
      have hless : rest.length < length := by
        rw [← hlength]
        simp only [length_append, crlf, length_cons]
        omega
      refine (ih _ hless ?_ ?_ rfl).mpr hrest
      · exact ⟨nofun, nofun, hready.noticed, Nat.mod_lt _ (by decide), nofun, nofun⟩
      · rfl

theorem append_unique {α : Type} {q : α → Prop} {as as' : List α} {b b' : α} {bs bs' : List α}
    (has : ∀ a ∈ as, q a) (has' : ∀ a ∈ as', q a) (hb : ¬ q b) (hb' : ¬ q b')
    (h : as ++ b :: bs = as' ++ b' :: bs') : as = as' ∧ b = b' ∧ bs = bs' := by
  induction as generalizing as' with
  | nil =>
    cases as' with
    | nil =>
      cases h
      exact ⟨rfl, rfl, rfl⟩
    | cons a' as' =>
      cases h
      exact absurd (has' b mem_cons_self) hb
  | cons a as ih =>
    cases as' with
    | nil =>
      cases h
      exact absurd (has b' mem_cons_self) hb'
    | cons a' as' =>
      obtain ⟨rfl,htail⟩ := cons.inj h
      obtain ⟨rfl,hrest⟩ := ih (fun a ha => has a (mem_cons_of_mem _ ha))
        (fun a ha => has' a (mem_cons_of_mem _ ha)) htail
      exact ⟨rfl, hrest⟩

theorem line_unique {line line' : Bytes} (hline : cr ∉ line) (hline' : cr ∉ line')
    (h : line ++ cr :: rest = line' ++ cr :: more) : line = line' ∧ rest = more := by
  obtain ⟨hsame,-,hrest⟩ := append_unique (q := (· ≠ cr)) (fun a ha heq => hline (heq ▸ ha))
    (fun a ha heq => hline' (heq ▸ ha)) (not_not.mpr rfl) (not_not.mpr rfl) h
  exact ⟨hsame, hrest⟩

theorem sizeLine_unique {digits digits' ext ext' tail tail' : Bytes} (hdigs : HexDigits digits)
    (hdigits' : HexDigits digits') (hext : ChunkExt ext) (hext' : ChunkExt ext')
    (h : digits ++ ext ++ crlf ++ tail = digits' ++ ext' ++ crlf ++ tail') :
    digits = digits' ∧ ext = ext' ∧ tail = tail' := by
  -- an extension and the CRLF begin with a character that is no digit
  have hbegins : ∀ {ext tail : Bytes}, ChunkExt ext → ∃ b bs, ext ++ (crlf ++ tail) = b :: bs ∧
      ¬ netIsHexChar b = true := by
    rintro ext tail (rfl | ⟨e,rfl,-⟩)
    · exact ⟨cr, lf :: tail, rfl, by decide⟩
    · exact ⟨semicolon, e ++ (crlf ++ tail), rfl, by decide⟩
  rw [append_assoc, append_assoc, append_assoc, append_assoc] at h
  obtain ⟨b,bs,hb,hhex⟩ := @hbegins ext tail hext
  obtain ⟨b',bs',hb',hhex'⟩ := @hbegins ext' tail' hext'
  rw [hb, hb'] at h
  obtain ⟨rfl,rfl,rfl⟩ := append_unique hdigs hdigits' hhex hhex' h
  refine ⟨rfl, ?_⟩
  rw [← hb'] at hb
  obtain rfl | ⟨e,rfl,he⟩ := hext
  · obtain rfl | ⟨e',rfl,he'⟩ := hext'
    · exact ⟨rfl, append_cancel_left hb⟩
    · cases hb
  obtain rfl | ⟨e',rfl,he'⟩ := hext'
  · cases hb
  · obtain ⟨rfl,htail⟩ := line_unique he he' (cons.inj hb).2
    exact ⟨rfl, (cons.inj htail).2⟩

theorem trailer_unique {trailer trailer' : Bytes} (h : Trailer trailer) (h' : Trailer trailer')
    (heq : trailer ++ rest = trailer' ++ more) : trailer = trailer' ∧ rest = more := by
  induction h generalizing trailer' with
  | lastCRLF =>
    cases h' with
    | lastCRLF => exact ⟨rfl, append_cancel_left heq⟩
    | @line line tail hne hline htail =>
      cases line with
      | nil => exact absurd rfl hne
      | cons b line =>
        obtain rfl : cr = b := (cons.inj heq).1
        exact absurd mem_cons_self hline
  | @line line tail hne hline htail ih =>
    cases h' with
    | lastCRLF =>
      cases line with
      | nil => exact absurd rfl hne
      | cons b line =>
        obtain rfl : b = cr := (cons.inj heq).1
        exact absurd mem_cons_self hline
    | @line line' tail' hne' hline' htail' =>
      simp only [append_assoc] at heq
      obtain ⟨rfl,htails⟩ := line_unique hline hline' heq
      obtain ⟨rfl,hrest⟩ := ih htail' (cons.inj htails).2
      exact ⟨rfl, hrest⟩

theorem chunkedBody_unique {body' out' : Bytes} (h : ChunkedBody P body out)
    (h' : ChunkedBody Q body' out') (heq : body ++ rest = body' ++ more) :
    body = body' ∧ ChunkedBody (fun digits => P digits ∧ Q digits) body out := by
  induction h generalizing body' out' with
  | @last digits ext trailer hdigs hP hext hzero htrailer =>
    obtain ⟨digits',ext',tail',rfl,hdigits',hQ,hext',hcase⟩ := chunkedBody_iff.mp h'
    rw [append_assoc _ trailer, append_assoc _ tail'] at heq
    obtain ⟨rfl,rfl,htails⟩ := sizeLine_unique hdigs hdigits' hext hext' heq
    obtain ⟨-,htrailer',-⟩ | ⟨hne,-⟩ := hcase
    · obtain ⟨rfl,-⟩ := trailer_unique htrailer htrailer' htails
      exact ⟨rfl, .last hdigs ⟨hP, hQ⟩ hext hzero htrailer⟩
    · exact absurd hzero hne
  | @chunk digits ext data tail out hdigs hP hext hne hdata hrest ih =>
    obtain ⟨digits',ext',tail',rfl,hdigits',hQ,hext',hcase⟩ := chunkedBody_iff.mp h'
    rw [append_assoc _ (data ++ crlf ++ tail), append_assoc _ tail'] at heq
    obtain ⟨rfl,rfl,htails⟩ := sizeLine_unique hdigs hdigits' hext hext' heq
    obtain ⟨hzero,-⟩ | ⟨-,data',rest',out₁,rfl,hdata',rfl,hrest'⟩ := hcase
    · exact absurd hzero hne
    simp only [append_assoc] at htails
    obtain ⟨rfl,hends⟩ := append_inj htails (hdata.trans hdata'.symm)
    obtain ⟨rfl,hboth⟩ := ih hrest' (append_cancel_left hends)
    exact ⟨rfl, .chunk hdigs ⟨hP, hQ⟩ hext hne hdata hboth⟩

end Liano.Http
