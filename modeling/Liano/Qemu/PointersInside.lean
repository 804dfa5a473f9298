import Liano.Qemu.Rollback

/-! The second pass reads the pointer fields again. A field that no command behind its ADD_POINTER
command writes to still leads into the blob, so that both assertions hold and nothing outside the blob
is read. -/
namespace Liano.Qemu

open List

variable {services : Services} {st st' : LoaderState} {status : EfiStatus}
  {restricted : List (List UInt8)} {done : List QemuLoaderEntry} {tracker : List Blob}
  {file : FileName} {blob b : Blob} {command : QemuLoaderAddPointer} {entry : QemuLoaderEntry}
  {memory memory' : Nat → UInt8} {a n v : Nat}

theorem readBytes_congr (h : ∀ x, a ≤ x → x < a+n → memory x = memory' x) :
    readBytes memory a n = readBytes memory' a n := by
  induction n generalizing a with
  | zero => rfl
  | succ n ih =>
    rw [readBytes, readBytes, h a le_rfl (by omega), ih fun x hx hlt => h x (by omega) (by omega)]

theorem calculateSum8_congr (h : ∀ x, a ≤ x → x < a+n → memory x = memory' x) :
    calculateSum8 memory a n = calculateSum8 memory' a n := by
  induction n generalizing a with
  | zero => rfl
  | succ n ih =>
    rw [calculateSum8, calculateSum8, h a le_rfl (by omega),
      ih fun x hx hlt => h x (by omega) (by omega)]

theorem readBytes_written (memory : Nat → UInt8) (i k : Nat) (hik : i+k ≤ n) :
    readBytes (writeBytes memory a n v) (a+i) k = v / 256^i % 256^k := by
  induction k generalizing i with
  | zero => rw [readBytes, pow_zero, Nat.mod_one]
  | succ k ih =>
    have hbyte : (writeBytes memory a n v (a+i)).toNat = v / 256^i % 256 := by
      unfold writeBytes
      rw [if_pos ⟨by omega, by omega⟩, Nat.add_sub_cancel_left]
      exact UInt8.toNat_ofNat'
    have hnext := ih (i+1) (by omega)
    have hlow : 256 ^ (k+1) = 256 * 256^k := Nat.pow_succ'
    have hhigh : 256 ^ (i+1) = 256^i*256 := pow_succ 256 i
    rw [readBytes, hbyte, add_assoc, hnext, hlow, Nat.mod_mul, hhigh, Nat.div_div_eq_div_mul]

theorem readBytes_writeBytes (memory : Nat → UInt8) (hv : v < 256^n) :
    readBytes (writeBytes memory a n v) a n = v := by
  have h := @readBytes_written a n v memory 0 n (by omega)
  rwa [add_zero, pow_zero, Nat.div_one, Nat.mod_eq_of_lt hv] at h

theorem readBytes_writeBytes_of_apart {c k w : Nat} (h : a+n ≤ c ∨ c+k ≤ a) :
    readBytes (writeBytes memory c k w) a n = readBytes memory a n := by
  apply readBytes_congr
  intro x hx hlt
  unfold writeBytes
  rw [if_neg (by omega)]

theorem identify_congr {remaining : Nat} (h : ∀ x, a ≤ x → x < a+remaining → memory x = memory' x) :
    identify memory a remaining = identify memory' a remaining := by
  unfold identify
  dsimp only
  by_cases hhdr : sizeOfDescriptionHeader ≤ remaining
  · have hsize : 36 ≤ remaining := hhdr
    have hsig : readBytes memory a 4 = readBytes memory' a 4 :=
      readBytes_congr fun x hx hlt => h x hx (by omega)
    have hlen : readBytes memory (a+4) 4 = readBytes memory' (a+4) 4 :=
      readBytes_congr fun x hx hlt => h x (by omega) (by omega)
    rw [hsig, hlen]
    by_cases hfits : readBytes memory' (a+4) 4 ≤ remaining
    · have hsum := @calculateSum8_congr memory memory' a (readBytes memory' (a+4) 4)
        fun x hx hlt => h x hx (by omega)
      rw [hsum]
    · rw [if_neg fun hc => hfits hc.2.2.1, if_neg fun hc => hfits hc.2.2.1,
        if_neg fun hc => hfits hc.2.2.1, if_neg fun hc => hfits hc.2.2.1]
  · have hfacs : ¬ sizeOfFacs ≤ remaining := fun hle => hhdr (le_trans (by decide) hle)
    rw [if_neg fun hc => hfacs hc.1, if_neg fun hc => hhdr hc.1, if_neg fun hc => hfacs hc.1,
      if_neg fun hc => hhdr hc.1]

theorem findBlob_markOpaque (tracker : List Blob) (name file : FileName) :
    findBlob (markOpaque tracker name) file = (findBlob tracker file).map fun b =>
      if asciiStr name = asciiStr b.file then { b with hostsOnlyTableData := false } else b := by
  unfold findBlob markOpaque
  rw [find?_map]
  congr 1
  apply congrArg (fun p => find? p tracker)
  funext b
  show (asciiStr file == asciiStr (if _ then _ else _ : Blob).file) = _
  split <;> rfl

theorem findBlob_orderedInsert (r : Blob → Blob → Prop) [DecidableRel r]
    (hne : asciiStr file ≠ asciiStr b.file) :
    findBlob (tracker.orderedInsert r b) file = findBlob tracker file := by
  unfold findBlob
  have hb : (asciiStr file == asciiStr b.file) = false := beq_eq_false_iff_ne.mpr hne
  induction tracker with
  | nil => rw [orderedInsert_nil, find?_cons, hb]
  | cons c tracker ih =>
    rw [orderedInsert_cons]
    split
    · rw [find?_cons, hb]
    · rw [find?_cons, ih, find?_cons]

/-- The command writes a byte of the pointer field of an ADD_POINTER command. -/
def WritesField (command : QemuLoaderAddPointer) : QemuLoaderEntry → Prop
  | .addPointer other =>
    asciiStr other.pointerFile = asciiStr command.pointerFile ∧
      other.pointerOffset < command.pointerOffset+command.pointerSize ∧
      command.pointerOffset < other.pointerOffset+other.pointerSize
  | .addChecksum other =>
    asciiStr other.file = asciiStr command.pointerFile ∧ command.pointerOffset ≤ other.resultOffset ∧
      other.resultOffset < command.pointerOffset+command.pointerSize
  | _ => False

structure Relocated (memory : Nat → UInt8) (tracker : List Blob) (command : QemuLoaderAddPointer)
    (blob b : Blob) : Prop where
  pointer : findBlob tracker command.pointerFile = some blob
  pointee : findBlob tracker command.pointeeFile = some b
  field : command.pointerOffset+command.pointerSize ≤ blob.size
  inside : b.Contains (pointerValue memory blob command)

def IsRelocated (st : LoaderState) (command : QemuLoaderAddPointer) : Prop :=
  ∃ blob b, Relocated st.memory st.tracker command blob b

theorem Relocated.of_memory (h : Relocated memory tracker command blob b)
    (hsame : pointerValue memory' blob command = pointerValue memory blob command) :
    Relocated memory' tracker command blob b := ⟨h.pointer, h.pointee, h.field, hsame ▸ h.inside⟩

theorem isRelocated_markOpaque (h : IsRelocated st command) (hmem : st'.memory = st.memory)
    (htracker : st'.tracker = markOpaque st.tracker file) : IsRelocated st' command := by
  obtain ⟨blob,b,hptr,hpointee,hfld,hins⟩ := h
  have hmark : ∀ c : Blob, ∃ c' : Blob, (if asciiStr file = asciiStr c.file then
      { c with hostsOnlyTableData := false } else c) = c' ∧ c'.base = c.base ∧ c'.size = c.size := by
    intro c
    split
    · exact ⟨_, rfl, rfl, rfl⟩
    · exact ⟨_, rfl, rfl, rfl⟩
  obtain ⟨blob',hblob',hbase,hsize⟩ := hmark blob
  obtain ⟨b',hb',hbase',hsize'⟩ := hmark b
  refine ⟨blob', b', ?_, ?_, ?_, ?_⟩
  · rw [htracker, findBlob_markOpaque, hptr, Option.map_some, hblob']
  · rw [htracker, findBlob_markOpaque, hpointee, Option.map_some, hb']
  · rw [hsize]
    exact hfld
  · unfold Blob.Contains pointerValue at hins ⊢
    rw [hmem, hbase, hbase', hsize']
    exact hins

theorem Relocated.write (hapart : tracker.Pairwise Blob.Apart)
    (h : Relocated memory tracker command blob b) {other : Blob} {offset size w : Nat}
    (hother : findBlob tracker file = some other) (hin : offset+size ≤ other.size)
    (hno : asciiStr file = asciiStr command.pointerFile →
      command.pointerOffset+command.pointerSize ≤ offset ∨ offset+size ≤ command.pointerOffset) :
    Relocated (writeBytes memory (other.base+offset) size w) tracker command blob b := by
  have hfld := h.field
  have hplaces : blob.base+command.pointerOffset+command.pointerSize ≤ other.base+offset ∨
      other.base+offset+size ≤ blob.base+command.pointerOffset := by
    by_cases hsame : asciiStr file = asciiStr command.pointerFile
    · have heq : some other = some blob := by
        rw [← hother, ← h.pointer]
        unfold findBlob
        rw [hsame]
      obtain rfl := Option.some.inj heq
      have := hno hsame
      omega
    · have hne : blob ≠ other := by
        intro heq
        apply hsame
        rw [(findBlob_mem hother).2, (findBlob_mem h.pointer).2, heq]
      have hdisj := hapart.forall (findBlob_mem h.pointer).1 (findBlob_mem hother).1 hne
      unfold Blob.Apart at hdisj
      omega
  apply h.of_memory
  exact readBytes_writeBytes_of_apart hplaces

theorem readBytes_lt (memory : Nat → UInt8) (a n : Nat) : readBytes memory a n < 256^n := by
  induction n generalizing a with
  | zero => exact Nat.one_pos
  | succ n ih =>
    have hbyte := (memory a).toNat_lt
    have hrest := ih (a+1)
    rw [readBytes, pow_succ]
    omega

theorem validPointerSize_le (hsize : validPointerSize n = true) : n ≤ 8 := by
  unfold validPointerSize at hsize
  simp only [Bool.or_eq_true, beq_iff_eq] at hsize
  omega

theorem lt_of_representable (hsize : validPointerSize n = true) (hrep : ¬ unrepresentable n v = true)
    (h64 : v < 2^64) : v < 256^n := by
  unfold validPointerSize at hsize
  unfold unrepresentable at hrep
  simp only [Bool.or_eq_true, beq_iff_eq] at hsize
  rcases hsize with ((rfl | rfl) | rfl) | rfl <;> simp at hrep <;> omega

theorem processCmdAddPointer_relocates
    (hrun : processCmdAddPointer command st = some (st', .success)) : IsRelocated st' command := by
  unfold processCmdAddPointer at hrun
  split at hrun
  · cases hrun
  cases hblob : findBlob st.tracker command.pointerFile with
  | none =>
    rw [hblob] at hrun
    cases hrun
  | some blob =>
    cases hb : findBlob st.tracker command.pointeeFile with
    | none =>
      rw [hblob, hb] at hrun
      cases hrun
    | some b =>
      rw [hblob, hb] at hrun
      dsimp only at hrun
      split at hrun
      · cases hrun
      rename_i hval
      split at hrun
      · cases hrun
      rename_i hvalue
      split at hrun
      · cases hrun
      rename_i hbase
      split at hrun
      · cases hrun
      rename_i hrepresentable
      cases hrun
      obtain ⟨hsize,hlarge,hoff⟩ := (not_or.mp hval).imp id not_or.mp
      have hvalSize : validPointerSize command.pointerSize = true := by
        rwa [Bool.not_eq_true', Bool.not_eq_false] at hsize
      refine ⟨blob, b, hblob, hb, by omega, ?_⟩
      have hfits : readBytes st.memory (blob.base+command.pointerOffset)
          command.pointerSize+b.base < 256^command.pointerSize :=
        lt_of_representable hvalSize hrepresentable (by
          have hle : 256^command.pointerSize ≤ 256^8 :=
            Nat.pow_le_pow_right (by decide) (validPointerSize_le hvalSize)
          have hlt := readBytes_lt st.memory (blob.base+command.pointerOffset) command.pointerSize
          omega)
      unfold Blob.Contains pointerValue
      rw [readBytes_writeBytes _ hfits]
      omega

variable {request : QemuLoaderAllocate} {entries : List QemuLoaderEntry}

/-- An allocation that succeeds tracks a blob with a new name, apart from all others, and writes to its
pages only. -/
theorem processCmdAllocate_success (hsvc : AllocatesApart services) (ht : Tracked services st done)
    (hrun : processCmdAllocate services restricted request st = (st', .success)) :
    ∃ new contents, findBlob st.tracker new.file = none ∧ st'.tracker = st.tracker.orderedInsert
        (fun a b => asciiStrCmp (asciiStr a.file) (asciiStr b.file) ≤ 0) new ∧
      st'.memory = loadBlob st.memory contents new ∧ ∀ c ∈ st.tracker, c.base+c.size ≤ new.base ∨
        new.base + efiSizeToPages new.size * efiPageSize ≤ c.base := by
  unfold processCmdAllocate at hrun
  split at hrun
  · cases hrun
  split at hrun
  · cases hrun
  dsimp only at hrun
  generalize (if asciiStr request.file ∈ restricted then 2^32-1 else 2^64-1) = maxAddress at hrun
  split at hrun
  · rename_i herr
    rw [(Prod.mk.inj hrun).2] at herr
    cases herr
  split at hrun
  · rename_i herr
    rw [(Prod.mk.inj hrun).2] at herr
    cases herr
  rename_i hpgs
  have happly := hsvc _ _ _ (Bool.eq_false_of_not_eq_true hpgs)
  unfold trackBlob at hrun
  dsimp only at hrun
  split at hrun
  · cases hrun
  split at hrun
  · cases hrun
  rename_i hnew
  split at hrun
  · cases hrun
  cases hrun
  refine ⟨_, _, ?_, rfl, rfl, fun c hc => ?_⟩
  · exact Option.not_isSome_iff_eq_none.mp hnew
  · have hlive := happly _ (ht.mem_live hc)
    have hc' := le_efiSizeToPages c.size
    unfold Blob.range at hlive
    dsimp only at hlive ⊢
    omega

theorem processCmdAllocate_isRelocated (hsvc : AllocatesApart services)
    (ht : Tracked services st done) (h : IsRelocated st command)
    (hrun : processCmdAllocate services restricted request st = (st', .success)) :
    IsRelocated st' command := by
  obtain ⟨new,contents,hnone,htracker,hmem,hapart⟩ := processCmdAllocate_success hsvc ht hrun
  obtain ⟨blob,b,hptr,hpointee,hfld,hins⟩ := h
  have hkeep : ∀ {name : FileName} {c : Blob}, findBlob st.tracker name = some c →
      findBlob st'.tracker name = some c := by
    intro name c hc
    rw [htracker, findBlob_orderedInsert, hc]
    intro heq
    have hsame : findBlob st.tracker name = findBlob st.tracker new.file := by
      unfold findBlob
      rw [heq]
    rw [hsame, hnone] at hc
    cases hc
  refine ⟨blob, b, hkeep hptr, hkeep hpointee, hfld, ?_⟩
  have hplaces := hapart blob (findBlob_mem hptr).1
  have hpgs := le_efiSizeToPages new.size
  have hsame : pointerValue st'.memory blob command = pointerValue st.memory blob command := by
    apply readBytes_congr
    intro x hx hlt
    rw [hmem]
    unfold loadBlob
    rw [if_neg (by omega), if_neg (by omega)]
  rw [hsame]
  exact hins

/-- What the commands of the first pass leave of a relocated pointer, where they do not write to its
field. -/
theorem processEntry_isRelocated (hsvc : AllocatesApart services) (ht : Tracked services st done)
    (h : IsRelocated st command) (hno : ¬ WritesField command entry)
    (hrun : processEntry services restricted entry st = some (st', .success)) : IsRelocated st' command := by
  cases entry with
  | allocate request => exact processCmdAllocate_isRelocated hsvc ht h (Option.some.inj hrun)
  | addPointer other =>
    obtain ⟨blob,b,hreloc⟩ := h
    have hrun : processCmdAddPointer other st = some (st', .success) := hrun
    unfold processCmdAddPointer at hrun
    split at hrun
    · cases hrun
    split at hrun
    · rename_i c c2 hc hc2
      dsimp only at hrun
      split at hrun
      · cases hrun
      rename_i hval
      split at hrun
      · cases hrun
      split at hrun
      · cases hrun
      split at hrun
      · cases hrun
      cases hrun
      refine ⟨blob, b, hreloc.write ht.apart hc (by omega) fun hsame => ?_⟩
      by_contra hover
      exact hno ⟨hsame, by omega, by omega⟩
    · cases hrun
  | addChecksum other =>
    obtain ⟨blob,b,hreloc⟩ := h
    have hrun : processCmdAddChecksum other st = (st', .success) := Option.some.inj hrun
    unfold processCmdAddChecksum at hrun
    split at hrun
    · cases hrun
    split at hrun
    · cases hrun
    rename_i c hc
    split at hrun
    · cases hrun
    rename_i hval
    cases hrun
    refine ⟨blob, b, hreloc.write ht.apart hc (by omega) fun hsame => ?_⟩
    by_contra hover
    exact hno ⟨hsame, by omega, by omega⟩
  | writePointer other =>
    have hrun : processCmdWritePointer services other st = some (st', .success) := hrun
    unfold processCmdWritePointer at hrun
    split at hrun
    · cases hrun
    dsimp only at hrun
    split at hrun
    · cases hrun
    split at hrun
    · cases hrun
    split at hrun
    · cases hrun
    split at hrun
    · cases hrun
    split at hrun
    · cases hrun
    split at hrun
    · cases hrun
    split at hrun
    · rename_i herr
      rw [(Prod.mk.inj (Option.some.inj hrun)).2] at herr
      cases herr
    · cases hrun
      exact isRelocated_markOpaque h rfl rfl
  | unknown type =>
    cases hrun
    exact h

/-- The pointers of the entries that are not written over are relocated when the first pass ends. -/
theorem firstPass_isRelocated (hsvc : AllocatesApart services)
    {subset subset' : List QemuLoaderEntry} (ht : Tracked services st done)
    (hrun : firstPass services restricted done subset entries st = some (st', .success, subset')) :
    (∀ command, IsRelocated st command → (∀ entry ∈ entries, ¬ WritesField command entry) →
      IsRelocated st' command) ∧ ∀ before command behind, entries = before ++ .addPointer command :: behind →
      (∀ entry ∈ behind, ¬ WritesField command entry) → IsRelocated st' command := by
  induction entries generalizing done subset st with
  | nil =>
    cases hrun
    refine ⟨fun command h _ => h, fun before command behind heq => ?_⟩
    cases before <;> cases heq
  | cons entry entries ih =>
    rw [firstPass, Option.bind_eq_some_iff] at hrun
    obtain ⟨⟨st₁,status₁⟩,hent,hrest⟩ := hrun
    cases hst : status₁.isError with
    | true =>
      simp only [hst, if_true, Option.some.injEq, Prod.mk.injEq] at hrest
      rw [hrest.2.1] at hst
      cases hst
    | false =>
      have hok : status₁ = .success := by cases status₁ <;> first | rfl | cases hst
      subst hok
      obtain ⟨hkeep,hnew⟩ := ih ((processEntry_tracked hsvc ht hent).2 rfl) hrest
      constructor
      · intro command h hno
        exact hkeep command (processEntry_isRelocated hsvc ht h
          (hno entry mem_cons_self) hent) fun e he => hno e (mem_cons_of_mem _ he)
      · intro before command behind heq hno
        cases before with
        | nil =>
          obtain ⟨rfl,rfl⟩ := cons.inj heq
          exact hkeep command (processCmdAddPointer_relocates hent) hno
        | cons first before =>
          obtain ⟨rfl,rfl⟩ := cons.inj heq
          exact hnew before command behind rfl hno

structure KeepsBlobs (st st' : LoaderState) : Prop where
  memory : st'.memory = st.memory
  tracker : st'.tracker = st.tracker ∨ ∃ file, st'.tracker = markOpaque st.tracker file

theorem KeepsBlobs.isRelocated (h : KeepsBlobs st st') (hr : IsRelocated st command) :
    IsRelocated st' command := by
  rcases h.tracker with heq | ⟨file,heq⟩
  · obtain ⟨blob,b,hreloc⟩ := hr
    refine ⟨blob, b, ?_⟩
    rw [h.memory, heq]
    exact hreloc
  · exact isRelocated_markOpaque hr h.memory heq

theorem process2ndPass_of_isRelocated (services : Services) (h : IsRelocated st command) :
    ∃ st' status, process2ndPassCmdAddPointer services command st = some (st',status) ∧
      KeepsBlobs st st' := by
  obtain ⟨blob,b,hptr,hpointee,-,hins⟩ := h
  obtain ⟨hlow,hhigh⟩ := hins
  have hassert : ¬ (pointerValue st.memory blob command < b.base ∨
      b.base+b.size ≤ pointerValue st.memory blob command) := by omega
  unfold process2ndPassCmdAddPointer
  rw [hptr, hpointee]
  dsimp only
  rw [if_neg hassert]
  split
  · exact ⟨_, _, rfl, rfl, .inl rfl⟩
  split
  · exact ⟨_, _, rfl, rfl, .inl rfl⟩
  split
  · exact ⟨_, _, rfl, rfl, .inl rfl⟩
  · exact ⟨_, _, rfl, rfl, .inr ⟨_, rfl⟩⟩
  split
  · exact ⟨_, _, rfl, rfl, .inl rfl⟩
  · split
    · exact ⟨_, _, rfl, rfl, .inl rfl⟩
    · exact ⟨_, _, rfl, rfl, .inl rfl⟩

theorem secondPass_of_isRelocated (services : Services)
    (h : ∀ command, .addPointer command ∈ entries → IsRelocated st command) :
    ∃ st' status, secondPass services entries st = some (st',status) ∧
      ∀ command, IsRelocated st command → IsRelocated st' command := by
  induction entries generalizing st with
  | nil => exact ⟨st, .success, rfl, fun _ hr => hr⟩
  | cons entry entries ih =>
    have hrest : ∀ command, .addPointer command ∈ entries → IsRelocated st command :=
      fun command hmem => h command (mem_cons_of_mem _ hmem)
    cases entry with
    | addPointer command =>
      rw [secondPass]
      by_cases hmax : st.installed.length > installedTablesMax
      · rw [if_pos hmax]
        exact ⟨_, _, rfl, fun _ hr => hr⟩
      obtain ⟨st₁,status₁,hrun,hkeep⟩ := process2ndPass_of_isRelocated services (h command mem_cons_self)
      rw [if_neg hmax, hrun, Option.bind_some]
      by_cases herr : status₁.isError = true
      · rw [if_pos herr]
        exact ⟨_, _, rfl, fun _ hr => hkeep.isRelocated hr⟩
      · rw [if_neg herr]
        obtain ⟨st₂,status₂,hrun₂,hkeep₂⟩ := ih fun command hmem => hkeep.isRelocated (hrest command hmem)
        exact ⟨st₂, status₂, hrun₂, fun command hr => hkeep₂ command (hkeep.isRelocated hr)⟩
    | allocate request => exact ih hrest
    | addChecksum request => exact ih hrest
    | writePointer request => exact ih hrest
    | unknown type => exact ih hrest

/-- Where no command behind an ADD_POINTER command writes to its pointer field, the second pass finds
every pointer inside its blob: no assertion fails, and the search for a header reads no byte outside
that blob. -/
theorem secondPass_pointers_inside {script subset : List QemuLoaderEntry} {st₁ : LoaderState}
    (hservices : AllocatesApart services) (hfresh : Fresh st)
    (hfirst : firstPass services restricted [] [] script st = some (st', .success, subset))
    (hkept : ∀ before command behind, script = before ++ .addPointer command :: behind →
      ∀ entry ∈ behind, ¬ WritesField command entry)
    (hmemory : st₁.memory = st'.memory) (htracker : st₁.tracker = st'.tracker) :
    (secondPass services script st₁).isSome = true ∧
    ∀ before command behind, script = before ++ .addPointer command :: behind →
      ∀ st₂ status, secondPass services before st₁ = some (st₂,status) →
        ∃ blob b, findBlob st₂.tracker command.pointerFile = some blob ∧
          findBlob st₂.tracker command.pointeeFile = some b ∧
          b.Contains (pointerValue st₂.memory blob command) ∧
          ∀ memory, (∀ x, b.Contains x → memory x = st₂.memory x) →
            identify memory (pointerValue st₂.memory blob command)
                (b.base+b.size - pointerValue st₂.memory blob command) =
              identify st₂.memory (pointerValue st₂.memory blob command)
                (b.base+b.size - pointerValue st₂.memory blob command) := by
  have hends := (firstPass_isRelocated hservices hfresh.tracked hfirst).2
  have hstart : ∀ command, .addPointer command ∈ script → IsRelocated st₁ command := by
    intro command hmem
    obtain ⟨before,behind,heq⟩ := append_of_mem hmem
    obtain ⟨blob,b,hreloc⟩ := hends before command behind heq (hkept before command behind heq)
    refine ⟨blob, b, ?_⟩
    rw [hmemory, htracker]
    exact hreloc
  constructor
  · obtain ⟨st₂,status,hrun,-⟩ := secondPass_of_isRelocated services hstart
    rw [hrun]
    rfl
  · intro before command behind heq st₂ status hrun
    have hbef : ∀ other, .addPointer other ∈ before → IsRelocated st₁ other := fun other hmem =>
      hstart other (heq ▸ mem_append_left _ hmem)
    obtain ⟨st₃,status₃,hrun₃,hkeep⟩ := secondPass_of_isRelocated services hbef
    obtain ⟨rfl,-⟩ := Prod.mk.inj (Option.some.inj (hrun.symm.trans hrun₃))
    obtain ⟨blob,b,hreloc⟩ := hkeep command (hstart command (heq ▸ mem_append_right _ mem_cons_self))
    refine ⟨blob, b, hreloc.pointer, hreloc.pointee, hreloc.inside, ?_⟩
    intro memory hsame
    have hins := hreloc.inside
    unfold Blob.Contains at hins hsame
    exact identify_congr fun x hx hlt => hsame x ⟨by omega, by omega⟩

def pointToItself : List QemuLoaderEntry :=
  [.allocate ⟨fileName 97, 16⟩, .addPointer ⟨fileName 97, fileName 97, 0, 8⟩]

def checksumInPointer : List QemuLoaderEntry := pointToItself ++ [.addChecksum ⟨fileName 97, 2, 0, 16⟩]

/-- The first pass succeeds, and an assertion of the second one fails. -/
theorem not_inside_checksumInPointer :
    (firstPass twoFiles [] [] [] checksumInPointer (initialState (fun _ => 0) [])).map (fun r =>
      (r.2.1, (secondPass twoFiles checksumInPointer r.1).isSome)) = some (.success, false) := by
  decide +kernel

/-- A checksum in the blob beside its pointer. -/
def checksumBeside : List QemuLoaderEntry := pointToItself ++ [.addChecksum ⟨fileName 97, 9, 0, 16⟩]

theorem secondPass_pointers_inside_beside :
    ∃ st₁, firstPass twoFiles [] [] [] checksumBeside (initialState (fun _ => 0) []) =
        some (st₁, .success, []) ∧ (secondPass twoFiles checksumBeside st₁).isSome = true ∧
      ∃ blob, findBlob st₁.tracker (fileName 97) = some blob ∧
        blob.Contains (pointerValue st₁.memory blob ⟨fileName 97, fileName 97, 0, 8⟩) := by
  have hapart : AllocatesApart twoFiles := fun live maxAddress pages h r hr =>
    .inl (pagesBehind_apart live maxAddress pages h r hr)
  have hfresh : Fresh (initialState (fun _ => 0) []) := ⟨rfl, rfl, rfl, rfl, rfl, rfl, rfl⟩
  have hkept : ∀ before command behind, checksumBeside = before ++ .addPointer command :: behind →
      ∀ entry ∈ behind, ¬ WritesField command entry := by
    intro before command behind heq entry hentry
    rcases before with _ | ⟨first,_ | ⟨second,_ | ⟨third,before⟩⟩⟩
    · cases heq
    · cases heq
      rw [mem_singleton.mp hentry]
      exact fun hwrites => absurd hwrites.2.2 (by decide)
    · cases heq
    · have hlen := congrArg length heq
      simp only [checksumBeside, pointToItself, length_cons, length_append, length_nil] at hlen
      omega
  have hfst : (firstPass twoFiles [] [] [] checksumBeside (initialState (fun _ => 0) [])).map
      (fun r => r.2) = some (.success, []) := by decide +kernel
  obtain ⟨⟨st₁,r⟩,hrun,rfl⟩ := Option.map_eq_some_iff.mp hfst
  obtain ⟨hsome,hinside⟩ := secondPass_pointers_inside hapart hfresh hrun hkept rfl rfl
  obtain ⟨blob,b,hblob,hpointee,hcontains,-⟩ := hinside [.allocate ⟨fileName 97, 16⟩] _ _ rfl st₁ .success rfl
  obtain rfl := Option.some.inj (hblob.symm.trans hpointee)
  exact ⟨st₁, hrun, hsome, blob, hblob, hcontains⟩

end Liano.Qemu
