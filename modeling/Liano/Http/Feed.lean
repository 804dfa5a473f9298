import Liano.Http.MessageBody

/-! The parser as a machine that takes one byte at a time. What a call of HttpParseMessageBody does is
what the machine does with the bytes of the buffer: the cases that take many bytes at once take them one
after the other, and a byte behind the end of the body is one that the loop never gets past. -/
namespace Liano.Http

open List hiding max min

/-- What becomes of the bytes: the parser goes on with the data delivered so far, the function returns
an error, or a byte is left that is never consumed. -/
inductive Fed
  | going (p : HttpBodyParser) (data : Bytes)
  | failed (status : EfiStatus) (p : HttpBodyParser) (data : Bytes)
  | overrun
deriving DecidableEq, Repr

def feedSize (p : HttpBodyParser) (c : UInt8) (data : Bytes) : Fed := if netIsHexChar c = false then
    if c = semicolon then .going { p with state := .chunkExtStart } data
    else if c = cr then .going { p with state := .chunkSizeEndCR } data
    else .failed .aborted { p with state := .stateMax } data
  else if p.currentChunkSize > (2^64-1-16) / 16 then .failed .invalidParameter p data
  else .going { p with currentChunkSize := p.currentChunkSize*16 + httpIoHexCharToUintn c } data

def feedByte (p : HttpBodyParser) (c : UInt8) (data : Bytes) : Fed := match p.state with
  | .stateMax => .failed .aborted p data
  | .bodyIdentity =>
    if p.parsedBodyLength = p.contentLength then .overrun
    else
      .going { p with
        parsedBodyLength := p.parsedBodyLength+1
        state := if p.parsedBodyLength+1 = p.contentLength then .complete else .bodyIdentity }
        (data ++ [c])
  | .chunkSizeStart => feedSize { p with currentChunkSize := 0, state := .chunkSize } c data
  | .chunkSize => feedSize p c data
  | .chunkExtStart => .going (if c = cr then { p with state := .chunkSizeEndCR } else p) data
  | .chunkSizeEndCR =>
    if c ≠ lf then .failed .aborted { p with state := .stateMax } data
    else if p.currentChunkSize = 0 then
      .going { p with contentLengthIsValid := true, state := .lastCRLF } data
    else .going { p with state := .chunkDataStart, currentChunkParsedSize := 0 } data
  | .lastCRLF => .going { p with state := if c = cr then .lastCRLFEnd else .trailer } data
  | .lastCRLFEnd =>
    if c = lf then .going { p with state := .complete } data
    else .failed .aborted { p with state := .stateMax } data
  | .trailer => .going (if c = cr then { p with state := .chunkSizeEndCR } else p) data
  | .chunkDataStart =>
    .going { p with
      contentLength := toUint64 (p.contentLength+1)
      currentChunkParsedSize := p.currentChunkParsedSize+1
      state := if p.currentChunkParsedSize+1 = p.currentChunkSize then .chunkDataEnd
        else .chunkDataStart } (data ++ [c])
  | .chunkDataEnd =>
    if c = cr then .going { p with state := .chunkDataEndCR } data
    else .failed .aborted { p with state := .stateMax } data
  | .chunkDataEndCR =>
    if c ≠ lf then .failed .aborted { p with state := .stateMax } data
    else .going { p with state := .chunkSizeStart } data
  | .bodyStart | .complete => .overrun

def feed : HttpBodyParser → Bytes → Bytes → Fed
  | p, [], data => .going p data
  | p, c :: rest, data =>
    match feedByte p c data with
    | .going p data => feed p rest data
    | .failed status p data => .failed status p data
    | .overrun => .overrun

variable {p p' : HttpBodyParser} {c : UInt8} {rest data body : Bytes} {n bodyLength : Nat}
  {events more : List BodyParseEvent} {f : HttpBodyParserCallback}

theorem feed_of_going (h : feedByte p c data = .going p' body) :
    feed p (c :: rest) data = feed p' rest body := by rw [feed, h]

variable {status : EfiStatus}

theorem feed_of_failed (h : feedByte p c data = .failed status p' body) :
    feed p (c :: rest) data = .failed status p' body := by rw [feed, h]

theorem feed_of_overrun (h : feedByte p c data = .overrun) : feed p (c :: rest) data = .overrun := by
  rw [feed, h]

def Fed.andThen (r : Fed) (next : HttpBodyParser → Bytes → Fed) : Fed :=
  match r with
  | .going p data => next p data
  | r => r

theorem feed_append (p : HttpBodyParser) (body rest data : Bytes) :
    feed p (body ++ rest) data = (feed p body data).andThen fun p data => feed p rest data := by
  induction body generalizing p data with
  | nil => rfl
  | cons c body ih =>
    rw [cons_append, feed, feed]
    cases feedByte p c data with
    | going p₁ data₁ => exact ih p₁ data₁
    | failed status p₁ data₁ => rfl
    | overrun => rfl

structure Ready (p : HttpBodyParser) : Prop where
  started : p.state ≠ .bodyStart
  valid : p.state ≠ .stateMax
  noticed : p.ignoreBody = false
  length : p.contentLength < 2^64
  identity : p.state = .bodyIdentity → p.parsedBodyLength ≤ p.contentLength
  chunk : p.state = .chunkDataStart → p.currentChunkParsedSize < p.currentChunkSize

theorem Ready.of_state (h : Ready p) (hstart : p'.state ≠ .bodyStart) (hval : p'.state ≠ .stateMax)
    (hnoticed : p'.ignoreBody = p.ignoreBody) (hlen : p'.contentLength = p.contentLength)
    (hid : p'.state ≠ .bodyIdentity) (hchunk : p'.state ≠ .chunkDataStart) : Ready p' :=
  ⟨hstart, hval, hnoticed ▸ h.noticed, hlen ▸ h.length, fun heq => absurd heq hid,
    fun heq => absurd heq hchunk⟩

theorem feedSize_ready (h : Ready p) (hst : p.state = .chunkSize)
    (hgoing : feedSize p c data = .going p' body) : Ready p' := by
  unfold feedSize at hgoing
  split at hgoing
  · split at hgoing
    · cases hgoing
      exact h.of_state nofun nofun rfl rfl nofun nofun
    split at hgoing
    · cases hgoing
      exact h.of_state nofun nofun rfl rfl nofun nofun
    · cases hgoing
  · split at hgoing
    · cases hgoing
    · cases hgoing
      refine h.of_state ?_ ?_ rfl rfl ?_ ?_ <;> (show p.state ≠ _; rw [hst]; exact nofun)

theorem feedByte_ready (h : Ready p) (hgoing : feedByte p c data = .going p' body) : Ready p' := by
  unfold feedByte at hgoing
  split at hgoing
  · cases hgoing
  · rename_i hst
    split at hgoing
    · cases hgoing
    cases hgoing
    have hle := h.identity hst
    have hlen := h.length
    refine ⟨?_, ?_, h.noticed, hlen, fun _ => by dsimp only; omega, ?_⟩
    · dsimp only
      split <;> exact nofun
    · dsimp only
      split <;> exact nofun
    · dsimp only
      split <;> exact nofun
  · have hsize : Ready { p with currentChunkSize := 0, state := .chunkSize } :=
      h.of_state nofun nofun rfl rfl nofun nofun
    exact feedSize_ready hsize rfl hgoing
  · rename_i hst
    exact feedSize_ready h hst hgoing
  · cases hgoing
    split
    · exact h.of_state nofun nofun rfl rfl nofun nofun
    · exact h
  · split at hgoing
    · cases hgoing
    split at hgoing
    · cases hgoing
      exact h.of_state nofun nofun rfl rfl nofun nofun
    · rename_i hne
      cases hgoing
      exact ⟨nofun, nofun, h.noticed, h.length, nofun, fun _ => Nat.pos_of_ne_zero hne⟩
  · cases hgoing
    split <;> exact h.of_state nofun nofun rfl rfl nofun nofun
  · split at hgoing
    · cases hgoing
      exact h.of_state nofun nofun rfl rfl nofun nofun
    · cases hgoing
  · cases hgoing
    split
    · exact h.of_state nofun nofun rfl rfl nofun nofun
    · exact h
  · rename_i hst
    cases hgoing
    have hlt := h.chunk hst
    refine ⟨?_, ?_, h.noticed, Nat.mod_lt _ (by decide), ?_, ?_⟩
    · dsimp only
      split <;> exact nofun
    · dsimp only
      split <;> exact nofun
    · dsimp only
      split <;> exact nofun
    · dsimp only
      split
      · exact nofun
      · exact fun _ => by omega
  · split at hgoing
    · cases hgoing
      exact h.of_state nofun nofun rfl rfl nofun nofun
    · cases hgoing
  · split at hgoing
    · cases hgoing
    · cases hgoing
      exact h.of_state nofun nofun rfl rfl nofun nofun
  · cases hgoing
  · cases hgoing

theorem feed_ready (h : Ready p) (hgoing : feed p rest data = .going p' body) : Ready p' := by
  induction rest generalizing p data with
  | nil =>
    cases hgoing
    exact h
  | cons c rest ih =>
    cases hbyte : feedByte p c data with
    | going p₁ data₁ =>
      rw [feed_of_going hbyte] at hgoing
      exact ih (feedByte_ready h hbyte) hgoing
    | failed status p₁ data₁ =>
      rw [feed_of_failed hbyte] at hgoing
      cases hgoing
    | overrun =>
      rw [feed_of_overrun hbyte] at hgoing
      cases hgoing

/-- Bytes that are consumed one after the other, with the parser before each of them. -/
theorem feed_run (next : Nat → HttpBodyParser)
    (hstep : ∀ k < n, ∀ c data, feedByte (next k) c data = .going (next (k+1)) (data ++ [c]))
    (hrest : n ≤ rest.length) :
    feed (next 0) rest data = feed (next n) (rest.drop n) (data ++ rest.take n) := by
  induction n generalizing next rest data with
  | zero => rw [drop_zero, take_zero, append_nil]
  | succ n ih =>
    cases rest with
    | nil => exact absurd hrest (by simp)
    | cons c rest =>
      have htail := @ih rest (data ++ [c]) (fun k => next (k+1))
        (fun k hk => hstep (k+1) (Nat.succ_lt_succ hk)) (Nat.le_of_succ_le_succ hrest)
      rw [append_assoc, singleton_append] at htail
      rw [feed_of_going (hstep 0 (Nat.succ_pos n) c data), drop_succ_cons, take_succ_cons]
      exact htail

theorem feed_chunkData (hst : p.state = .chunkDataStart) (hn : 1 ≤ n)
    (hchunk : n ≤ p.currentChunkSize-p.currentChunkParsedSize) (hrest : n ≤ rest.length) :
    feed p rest data = feed { p with
      contentLength := toUint64 (p.contentLength+n)
      currentChunkParsedSize := p.currentChunkParsedSize+n
      state := if p.currentChunkParsedSize+n = p.currentChunkSize then .chunkDataEnd
        else .chunkDataStart } (rest.drop n) (data ++ rest.take n) := by
  obtain ⟨n,rfl⟩ := Nat.exists_eq_succ_of_ne_zero (Nat.ne_zero_of_lt hn)
  refine feed_run (fun k => match k with
    | 0 => p
    | k+1 => { p with
      contentLength := toUint64 (p.contentLength + (k+1))
      currentChunkParsedSize := p.currentChunkParsedSize + (k+1)
      state := if p.currentChunkParsedSize + (k+1) = p.currentChunkSize then .chunkDataEnd
        else .chunkDataStart }) (fun k hk c data => ?_) hrest
  cases k with
  | zero =>
    unfold feedByte
    rw [hst]
  | succ k =>
    have hne : p.currentChunkParsedSize + (k+1) ≠ p.currentChunkSize := by omega
    have hsum : toUint64 (toUint64 (p.contentLength + (k+1)) + 1) = toUint64 (p.contentLength + (k+1+1)) := by
      unfold toUint64
      omega
    dsimp only
    rw [if_neg hne, feedByte]
    rw [hsum]
    rfl

theorem feed_identity (hst : p.state = .bodyIdentity) (hn : 1 ≤ n)
    (hbody : n ≤ p.contentLength-p.parsedBodyLength) (hrest : n ≤ rest.length) :
    feed p rest data = feed { p with
      parsedBodyLength := p.parsedBodyLength+n
      state := if p.parsedBodyLength+n = p.contentLength then .complete else .bodyIdentity }
      (rest.drop n) (data ++ rest.take n) := by
  obtain ⟨n,rfl⟩ := Nat.exists_eq_succ_of_ne_zero (Nat.ne_zero_of_lt hn)
  refine feed_run (fun k => match k with
    | 0 => p
    | k+1 => { p with
      parsedBodyLength := p.parsedBodyLength + (k+1)
      state := if p.parsedBodyLength + (k+1) = p.contentLength then .complete else .bodyIdentity })
    (fun k hk c data => ?_) hrest
  cases k with
  | zero =>
    have hne : p.parsedBodyLength ≠ p.contentLength := by omega
    unfold feedByte
    rw [hst]
    exact if_neg hne
  | succ k =>
    have hne : p.parsedBodyLength + (k+1) ≠ p.contentLength := by omega
    dsimp only
    rw [if_neg hne]
    exact if_neg hne

def Accepting (f : HttpBodyParserCallback) : Prop := ∀ event, (f event).isError = false

def Fed.Agrees (run : Nat → Option ParseResult) : Fed → Prop
  | .going p data => ∃ n events, eventsData events = data ∧
      ∀ fuel, n ≤ fuel → run fuel = some ⟨.success, p, events⟩
  | .failed status p data => status.isError = true ∧ ∃ n events, eventsData events = data ∧
      ∀ fuel, n ≤ fuel → run fuel = some ⟨status, p, events⟩
  | .overrun => ∀ fuel, run fuel = none

theorem callback_of_accepting (hf : Accepting f) (event : BodyParseEvent)
    (next : List BodyParseEvent → BodyStep) : callback f event p events next = next (events ++ [event]) := by
  unfold callback
  rw [hf event, if_ff]

theorem eventsData_append : eventsData (events ++ more) = eventsData events ++ eventsData more :=
  flatMap_append

theorem eventsData_onData (bytes : Bytes) : eventsData (events ++ [.onData bytes]) = eventsData events ++ bytes := by
  rw [eventsData_append]
  unfold eventsData
  simp only [flatMap_cons, flatMap_nil, BodyParseEvent.data, append_nil]

theorem parseLoop_goesOn (hstep : bodyStep f bodyLength p c rest = .goesOn p' body more) (fuel : Nat) :
    parseLoop f bodyLength (fuel+1) p (c :: rest) events =
      parseLoop f bodyLength fuel p' body (events ++ more) := by rw [parseLoop, hstep]

theorem parseLoop_returns (hstep : bodyStep f bodyLength p c rest = .returns status p' more) (fuel : Nat) :
    parseLoop f bodyLength (fuel+1) p (c :: rest) events = some ⟨status, p', events ++ more⟩ := by
  rw [parseLoop, hstep]

theorem parseLoop_nil (hval : p.state ≠ .stateMax) (fuel : Nat) :
    parseLoop f bodyLength (fuel+1) p [] events = some ⟨.success, p, events⟩ := by
  rw [parseLoop, if_neg hval]

theorem agrees_of_goesOn {fed : Fed} (hstep : bodyStep f bodyLength p c rest = .goesOn p' body more)
    (h : fed.Agrees fun fuel => parseLoop f bodyLength fuel p' body (events ++ more)) :
    fed.Agrees fun fuel => parseLoop f bodyLength fuel p (c :: rest) events := by
  cases fed with
  | going p₁ data₁ =>
    obtain ⟨n,events₁,hdata,hrun⟩ := h
    refine ⟨n+1, events₁, hdata, fun fuel hfuel => ?_⟩
    obtain ⟨k,rfl⟩ := Nat.exists_eq_add_of_le' hfuel
    exact (parseLoop_goesOn hstep (k+n)).trans (hrun _ (Nat.le_add_left _ _))
  | failed status p₁ data₁ =>
    obtain ⟨herr,n,events₁,hdata,hrun⟩ := h
    refine ⟨herr, n+1, events₁, hdata, fun fuel hfuel => ?_⟩
    obtain ⟨k,rfl⟩ := Nat.exists_eq_add_of_le' hfuel
    exact (parseLoop_goesOn hstep (k+n)).trans (hrun _ (Nat.le_add_left _ _))
  | overrun =>
    intro fuel
    cases fuel with
    | zero => rfl
    | succ fuel => exact (parseLoop_goesOn hstep fuel).trans (h fuel)

theorem agrees_stateMax (hst : p.state = .stateMax) :
    (Fed.failed .aborted p (eventsData events)).Agrees fun fuel =>
      parseLoop f bodyLength fuel p rest events := by
  refine ⟨rfl, 1, events, rfl, fun fuel hfuel => ?_⟩
  obtain ⟨k,rfl⟩ := Nat.exists_eq_add_of_le' hfuel
  show parseLoop f bodyLength (k+1) p rest events = _
  cases rest with
  | nil => rw [parseLoop, if_pos hst]
  | cons c rest =>
    have hstep : bodyStep f bodyLength p c rest = .returns .aborted p [] := by
      unfold bodyStep
      rw [hst]
    rw [parseLoop_returns hstep, append_nil]

theorem agrees_overrun (hst : p.state = .complete) (c : UInt8) (rest : Bytes) :
    Fed.overrun.Agrees fun fuel => parseLoop f bodyLength fuel p (c :: rest) events := by
  intro fuel
  induction fuel generalizing events with
  | zero => rfl
  | succ fuel ih =>
    have hstep : bodyStep f bodyLength p c rest = .goesOn p (c :: rest) [] := by
      unfold bodyStep
      rw [hst]
    exact (parseLoop_goesOn hstep fuel).trans ih

theorem agrees_nil (hval : p.state ≠ .stateMax) : (Fed.going p (eventsData events)).Agrees fun fuel =>
      parseLoop f bodyLength fuel p [] events := by
  refine ⟨1, events, rfl, fun fuel hfuel => ?_⟩
  obtain ⟨k,rfl⟩ := Nat.exists_eq_add_of_le' hfuel
  exact parseLoop_nil hval k

theorem feedByte_complete (hst : p.state = .complete) : feedByte p c data = .overrun := by
  unfold feedByte
  rw [hst]

theorem identity_agrees (hf : Accepting f) (hready : Ready p) (hst : p.state = .bodyIdentity)
    (hlen : (c :: rest).length = bodyLength) : (feed p (c :: rest) (eventsData events)).Agrees fun fuel =>
      parseLoop f bodyLength fuel p (c :: rest) events := by
  have hle := hready.identity hst
  have h64 := hready.length
  have hrem : toUint64 (p.contentLength + (2^64-p.parsedBodyLength)) =
      p.contentLength-p.parsedBodyLength := by
    unfold toUint64
    omega
  generalize hn : min bodyLength (p.contentLength-p.parsedBodyLength) = n
  have hparsed : toUint64 (p.parsedBodyLength+n) = p.parsedBodyLength+n := toUint64_of_lt (by omega)
  have hstep : bodyStep f bodyLength p c rest = if p.parsedBodyLength+n = p.contentLength then
        .goesOn { p with parsedBodyLength := p.parsedBodyLength+n, state := .complete }
          ((c :: rest).drop n) [.onData ((c :: rest).take n), .onComplete]
      else .goesOn { p with parsedBodyLength := p.parsedBodyLength+n, state := .bodyIdentity }
        ((c :: rest).drop n) [.onData ((c :: rest).take n)] := by
    unfold bodyStep
    rw [hst]
    unfold identityStep
    rw [hrem, hn]
    dsimp only
    rw [callback_of_accepting hf, hparsed]
    split
    · rw [callback_of_accepting hf]
      rfl
    · rw [← hst]
      rfl
  by_cases hdone : p.parsedBodyLength = p.contentLength
  · -- nothing is left of the body: the byte stays where it is
    have hzero : n = 0 := by omega
    subst hzero
    have hbyte : feedByte p c (eventsData events) = .overrun := by
      unfold feedByte
      rw [hst]
      exact if_pos hdone
    rw [if_pos (by omega)] at hstep
    rw [feed_of_overrun hbyte]
    exact agrees_of_goesOn hstep (agrees_overrun rfl c rest)
  · have hpos : 1 ≤ n := by
      rw [length_cons] at hlen
      omega
    have hfeed := @feed_identity p (c :: rest) (eventsData events) n hst hpos (by omega)
      (by omega)
    rw [hfeed]
    by_cases hcompl : p.parsedBodyLength+n = p.contentLength
    · rw [if_pos hcompl] at hstep ⊢
      have hdata : eventsData (events ++ [.onData ((c :: rest).take n), .onComplete]) =
          eventsData events ++ (c :: rest).take n := by
        rw [eventsData_append]
        unfold eventsData
        simp only [flatMap_cons, flatMap_nil, BodyParseEvent.data, append_nil]
      refine agrees_of_goesOn hstep ?_
      rw [← hdata]
      cases hdrop : (c :: rest).drop n with
      | nil => exact agrees_nil nofun
      | cons d tail => exact agrees_overrun rfl d tail
    · rw [if_neg hcompl] at hstep ⊢
      have hdrop : (c :: rest).drop n = [] := drop_eq_nil_of_le (by omega)
      refine agrees_of_goesOn hstep ?_
      rw [← eventsData_onData, hdrop]
      exact agrees_nil nofun

/-- The round of the loop for a byte that is looked at alone, and what the machine makes of the byte. -/
inductive SameByte (rest data : Bytes) : BodyStep → Fed → Prop
  | consumed {p : HttpBodyParser} {more : List BodyParseEvent} : p.state ≠ .bodyIdentity →
    eventsData more = [] → SameByte rest data (.goesOn p rest more) (.going p data)
  | aborted {p : HttpBodyParser} {body : Bytes} : p.state = .stateMax →
    SameByte rest data (.goesOn p body []) (.failed .aborted p data)
  | refused {p : HttpBodyParser} {status : EfiStatus} : status.isError = true →
    SameByte rest data (.returns status p []) (.failed status p data)

theorem sameByte_size (hst : p.state = .chunkSize) :
    SameByte rest data (chunkSizeStep p c rest) (feedSize p c data) := by
  unfold chunkSizeStep feedSize
  split
  · split
    · exact .consumed nofun rfl
    split
    · exact .consumed nofun rfl
    · exact .aborted rfl
  split
  · exact .refused rfl
  · exact .consumed (by show p.state ≠ _; rw [hst]; exact nofun) rfl

theorem sameByte_of_state (hf : Accepting f) (hready : Ready p) (hid : p.state ≠ .bodyIdentity)
    (hchunk : p.state ≠ .chunkDataStart) (hlast : p.state ≠ .lastCRLF) (hcompl : p.state ≠ .complete) :
    SameByte rest data (bodyStep f bodyLength p c rest) (feedByte p c data) := by
  have hext : (if c = cr then { p with state := .chunkSizeEndCR } else p).state ≠ .bodyIdentity := by
    split
    · exact nofun
    · exact hid
  unfold bodyStep feedByte
  cases hst : p.state with
  | bodyStart => exact absurd hst hready.started
  | stateMax => exact absurd hst hready.valid
  | bodyIdentity => exact absurd hst hid
  | chunkDataStart => exact absurd hst hchunk
  | lastCRLF => exact absurd hst hlast
  | complete => exact absurd hst hcompl
  | chunkSizeStart => exact sameByte_size rfl
  | chunkSize => exact sameByte_size hst
  | chunkExtStart => exact .consumed hext rfl
  | trailer => exact .consumed hext rfl
  | chunkSizeEndCR =>
    dsimp only
    split
    · exact .aborted rfl
    split
    · exact .consumed nofun rfl
    · exact .consumed nofun rfl
  | chunkDataEndCR =>
    dsimp only
    split
    · exact .aborted rfl
    · exact .consumed nofun rfl
  | chunkDataEnd =>
    dsimp only
    split
    · exact .consumed nofun rfl
    · exact .aborted rfl
  | lastCRLFEnd =>
    dsimp only
    split
    · rw [callback_of_accepting hf]
      exact .consumed nofun rfl
    · exact .aborted rfl

section
-- what is known of the bytes behind those that a round consumes
variable (hrest : ∀ m p₁ (events₁ : List BodyParseEvent), 1 ≤ m → Ready p₁ → p₁.state ≠ .bodyIdentity →
  (feed p₁ ((c :: rest).drop m) (eventsData events₁)).Agrees fun fuel =>
    parseLoop f bodyLength fuel p₁ ((c :: rest).drop m) events₁)
include hrest

theorem agrees_of_sameByte (hready : Ready p)
    (h : SameByte rest (eventsData events) (bodyStep f bodyLength p c rest) (feedByte p c (eventsData events))) :
    (feed p (c :: rest) (eventsData events)).Agrees fun fuel =>
      parseLoop f bodyLength fuel p (c :: rest) events := by
  generalize hstep : bodyStep f bodyLength p c rest = step at h
  generalize hbyte : feedByte p c (eventsData events) = fed at h
  cases h with
  | @consumed p₁ more hnot hmore =>
    have hdata : eventsData (events ++ more) = eventsData events := by
      rw [eventsData_append, hmore, append_nil]
    rw [feed_of_going hbyte, ← hdata]
    exact agrees_of_goesOn hstep (hrest 1 p₁ _ le_rfl (feedByte_ready hready hbyte) hnot)
  | aborted hmax =>
    rw [feed_of_failed hbyte]
    refine agrees_of_goesOn hstep ?_
    rw [append_nil]
    exact agrees_stateMax hmax
  | refused herr =>
    rw [feed_of_failed hbyte]
    refine ⟨herr, 1, events ++ [], by rw [append_nil], fun fuel hfuel => ?_⟩
    obtain ⟨k,rfl⟩ := Nat.exists_eq_add_of_le' hfuel
    exact parseLoop_returns hstep k

theorem lastCRLF_agrees (hready : Ready p) (hst : p.state = .lastCRLF) :
    (feed p (c :: rest) (eventsData events)).Agrees fun fuel =>
      parseLoop f bodyLength fuel p (c :: rest) events := by
  by_cases hcr : c = cr
  · refine agrees_of_sameByte hrest hready ?_
    unfold bodyStep feedByte
    rw [hst]
    dsimp only
    rw [if_pos hcr, if_pos hcr]
    exact .consumed nofun rfl
  -- the byte is looked at once more, as the first one of a trailer
  have hstep : bodyStep f bodyLength p c rest =
      .goesOn { p with state := .trailer } (c :: rest) [] := by
    unfold bodyStep
    rw [hst]
    exact if_neg hcr
  have hnext : bodyStep f bodyLength { p with state := .trailer } c rest =
      .goesOn { p with state := .trailer } rest [] := by
    unfold bodyStep
    rw [if_neg hcr]
  have hbyte : feedByte p c (eventsData events) =
      .going { p with state := .trailer } (eventsData events) := by
    unfold feedByte
    rw [hst]
    dsimp only
    rw [if_neg hcr]
  rw [feed_of_going hbyte]
  refine agrees_of_goesOn hstep (agrees_of_goesOn hnext ?_)
  rw [append_nil, append_nil]
  exact hrest 1 _ _ le_rfl (feedByte_ready hready hbyte) nofun

theorem chunkData_agrees (hf : Accepting f) (hready : Ready p) (hst : p.state = .chunkDataStart) :
    (feed p (c :: rest) (eventsData events)).Agrees fun fuel =>
      parseLoop f bodyLength fuel p (c :: rest) events := by
  have hlt := hready.chunk hst
  generalize hn : min (p.currentChunkSize-p.currentChunkParsedSize) (c :: rest).length = n
  have hpos : 1 ≤ n := by
    rw [length_cons] at hn
    omega
  have hstep : bodyStep f bodyLength p c rest = .goesOn { p with
      contentLength := toUint64 (p.contentLength+n)
      currentChunkParsedSize := p.currentChunkParsedSize+n
      state := if p.currentChunkParsedSize+n = p.currentChunkSize then .chunkDataEnd
        else .chunkDataStart } ((c :: rest).drop n) [.onData ((c :: rest).take n)] := by
    unfold bodyStep
    rw [hst]
    unfold chunkDataStep
    dsimp only
    rw [hn, callback_of_accepting hf, nil_append]
    split
    · rfl
    · rw [← hst]
  rw [@feed_chunkData p (c :: rest) (eventsData events) n hst hpos (by omega) (by omega), ← eventsData_onData]
  refine agrees_of_goesOn hstep (hrest n _ _ hpos ?_ ?_)
  · have htake : feed p ((c :: rest).take n) (eventsData events) = .going _ _ :=
      (feed_chunkData hst hpos (by omega) (by rw [length_take]; omega)).trans
        (by rw [drop_eq_nil_of_le (length_take_le _ _)]; rfl)
    exact feed_ready hready htake
  · dsimp only
    split <;> exact nofun

end

theorem parseLoop_agrees (hf : Accepting f) (hready : Ready p)
    (hid : p.state = .bodyIdentity → rest.length = bodyLength) :
    (feed p rest (eventsData events)).Agrees fun fuel => parseLoop f bodyLength fuel p rest events := by
  -- by the number of bytes left
  induction hlen : rest.length using Nat.strong_induction_on generalizing p rest events with
  | _ len ih =>
    subst hlen
    cases rest with
    | nil => exact agrees_nil hready.valid
    | cons c rest =>
      have hrest : ∀ m p₁ (events₁ : List BodyParseEvent), 1 ≤ m → Ready p₁ → p₁.state ≠ .bodyIdentity →
          (feed p₁ ((c :: rest).drop m) (eventsData events₁)).Agrees fun fuel =>
            parseLoop f bodyLength fuel p₁ ((c :: rest).drop m) events₁ := by
        intro m p₁ events₁ hm hready₁ hnot
        refine ih _ ?_ hready₁ (fun heq => absurd heq hnot) rfl
        rw [length_drop, length_cons]
        omega
      by_cases hst : p.state = .bodyIdentity
      · exact identity_agrees hf hready hst (hid hst)
      by_cases hchunk : p.state = .chunkDataStart
      · exact chunkData_agrees hrest hf hready hchunk
      by_cases hlast : p.state = .lastCRLF
      · exact lastCRLF_agrees hrest hready hlast
      by_cases hcompl : p.state = .complete
      · rw [feed_of_overrun (feedByte_complete hcompl)]
        exact agrees_overrun hcompl c rest
      exact agrees_of_sameByte hrest hready (sameByte_of_state hf hready hst hchunk hlast hcompl)

theorem parseLoop_mono {r : ParseResult} {fuel : Nat}
    (h : parseLoop f bodyLength fuel p rest events = some r) (n : Nat) :
    parseLoop f bodyLength (fuel+n) p rest events = some r := by
  induction fuel generalizing p rest events with
  | zero => cases h
  | succ fuel ih =>
    rw [Nat.add_right_comm]
    cases rest with
    | nil => exact h
    | cons c rest =>
      cases hstep : bodyStep f bodyLength p c rest with
      | returns status p₁ more =>
        rw [parseLoop_returns hstep] at h ⊢
        exact h
      | goesOn p₁ rest₁ more =>
        rw [parseLoop_goesOn hstep] at h ⊢
        exact ih h

theorem startBody_of_ready (h : Ready p) : startBody p = p := by
  unfold startBody
  rw [if_neg h.started]

theorem httpParseMessageBody_agrees (hf : Accepting f) (hready : Ready (startBody p))
    (hbody : body ≠ []) :
    (feed (startBody p) body []).Agrees fun fuel => httpParseMessageBody f fuel p body := by
  have hnoticed : p.ignoreBody = false := by
    have h := hready.noticed
    unfold startBody at h
    split at h <;> exact h
  have hrun : (fun fuel => httpParseMessageBody f fuel p body) = fun fuel =>
      parseLoop f body.length fuel (startBody p) body [] := by
    funext fuel
    unfold httpParseMessageBody
    rw [if_neg fun hzero => hbody (length_eq_zero_iff.mp hzero), hnoticed, if_ff]
  rw [hrun]
  exact @parseLoop_agrees (startBody p) body body.length [] f hf hready fun _ => rfl

def Fed.behind (data : Bytes) : Fed → Fed
  | .going p more => .going p (data ++ more)
  | .failed status p more => .failed status p (data ++ more)
  | .overrun => .overrun

theorem feedSize_behind (data more : Bytes) :
    feedSize p c (data ++ more) = (feedSize p c more).behind data := by
  unfold feedSize
  repeat' split
  all_goals rfl

theorem feedByte_behind (data more : Bytes) :
    feedByte p c (data ++ more) = (feedByte p c more).behind data := by
  unfold feedByte
  split
  case h_3 => exact feedSize_behind data more
  case h_4 => exact feedSize_behind data more
  all_goals repeat' split
  all_goals first | rfl | exact congrArg _ (append_assoc _ _ _)

theorem feed_behind (data more : Bytes) : feed p rest (data ++ more) = (feed p rest more).behind data := by
  induction rest generalizing p more with
  | nil => rfl
  | cons c rest ih =>
    have hbyte := @feedByte_behind p c data more
    cases h : feedByte p c more with
    | going p₁ data₁ =>
      rw [h] at hbyte
      rw [feed_of_going h, feed_of_going hbyte]
      exact ih data₁
    | failed status p₁ data₁ =>
      rw [h] at hbyte
      rw [feed_of_failed h, feed_of_failed hbyte]
      rfl
    | overrun =>
      rw [h] at hbyte
      rw [feed_of_overrun h, feed_of_overrun hbyte]
      rfl

theorem parseBuffers_agrees (hf : Accepting f) (hready : Ready p) {buffers : List Bytes}
    (hbufs : ∀ body ∈ buffers, body ≠ []) : (feed p buffers.flatten (eventsData events)).Agrees fun fuel =>
      parseBuffers f fuel p buffers events := by
  induction buffers generalizing p events with
  | nil => exact ⟨0, events, rfl, fun fuel _ => rfl⟩
  | cons body buffers ih =>
    have hcall := httpParseMessageBody_agrees hf (p := p)
      (by rw [startBody_of_ready hready]; exact hready) (hbufs body mem_cons_self)
    rw [startBody_of_ready hready] at hcall
    have hfeed := @feed_behind p body (eventsData events) []
    rw [append_nil] at hfeed
    rw [flatten_cons, feed_append, hfeed]
    cases hone : feed p body [] with
    | going p₁ data₁ =>
      rw [hone] at hcall
      obtain ⟨n,more,hmore,hrun⟩ := hcall
      have hrest := @ih p₁ (events ++ more) (feed_ready hready hone)
        (fun b hb => hbufs b (mem_cons_of_mem _ hb))
      rw [eventsData_append, hmore] at hrest
      dsimp only [Fed.behind, Fed.andThen]
      have hnext : ∀ fuel, n ≤ fuel → parseBuffers f fuel p (body :: buffers) events =
          parseBuffers f fuel p₁ buffers (events ++ more) := by
        intro fuel hfuel
        have hone := hrun fuel hfuel
        dsimp only at hone
        rw [parseBuffers, hone]
        rfl
      cases hfed : feed p₁ buffers.flatten (eventsData events ++ data₁) with
      | going p₂ data₂ =>
        rw [hfed] at hrest
        obtain ⟨k,events₂,hdata,hrun₂⟩ := hrest
        refine ⟨max n k, events₂, hdata, fun fuel hfuel => ?_⟩
        exact (hnext fuel (by omega)).trans (hrun₂ fuel (by omega))
      | failed status p₂ data₂ =>
        rw [hfed] at hrest
        obtain ⟨herr,k,events₂,hdata,hrun₂⟩ := hrest
        refine ⟨herr, max n k, events₂, hdata, fun fuel hfuel => ?_⟩
        exact (hnext fuel (by omega)).trans (hrun₂ fuel (by omega))
      | overrun =>
        rw [hfed] at hrest
        intro fuel
        -- a call that returns with less fuel returns the same
        show parseBuffers f fuel p (body :: buffers) events = none
        cases hr : httpParseMessageBody f fuel p body with
        | none => rw [parseBuffers, hr, Option.bind_none]
        | some r =>
          have hmono : httpParseMessageBody f (fuel+n) p body = some r := by
            unfold httpParseMessageBody at hr ⊢
            rw [if_neg fun hzero => hbufs body mem_cons_self
              (length_eq_zero_iff.mp hzero), hready.noticed, if_ff] at hr ⊢
            exact parseLoop_mono hr n
          have hsame := hrun (fuel+n) (Nat.le_add_left _ _)
          dsimp only at hsame
          rw [hmono] at hsame
          obtain rfl := Option.some.inj hsame
          rw [parseBuffers, hr, Option.bind_some]
          exact hrest fuel
    | failed status p₁ data₁ =>
      rw [hone] at hcall
      obtain ⟨herr,n,more,hmore,hrun⟩ := hcall
      dsimp only [Fed.behind, Fed.andThen]
      refine ⟨herr, n, events ++ more, by rw [eventsData_append, hmore], fun fuel hfuel => ?_⟩
      have hone := hrun fuel hfuel
      dsimp only at hone ⊢
      rw [parseBuffers, hone, Option.bind_some, if_pos herr]
    | overrun =>
      rw [hone] at hcall
      dsimp only [Fed.behind, Fed.andThen]
      intro fuel
      have hone := hcall fuel
      dsimp only at hone ⊢
      rw [parseBuffers, hone, Option.bind_none]

end Liano.Http
