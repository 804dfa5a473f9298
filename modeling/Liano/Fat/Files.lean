import Liano.Fat.FileSpace

/-! The files of a volume over a run of growing and shrinking. -/
namespace Liano.Fat.Space

open Function (update update_of_ne update_self)
open List

variable {F : Type} [DecidableEq F] {v v' : Volume} {o : OFile} {cs rest : List Nat} {c : Nat}

theorem findLast_chain : ∀ (cs : List Nat) (fuel cluster count last : Nat), v.Fits → Linked v cs →
    (∀ c ∈ cs, v.HasCluster c) → cs.length < fuel → Leads cluster cs →
    ∃ l, findLast v fuel cluster count last = (true, count+cs.length, l) ∧
      (cs = [] ∧ l = last ∨ ∃ front, cs = front ++ [l]) := by
  intro cs
  induction cs with
  | nil =>
    intro fuel cluster count last _ _ _ hfuel hlead
    obtain ⟨n,rfl⟩ := Nat.exists_eq_succ_of_ne_zero (ne_of_gt hfuel)
    have hend : endOfFatChain cluster = true := hlead
    refine ⟨last, ?_, .inl ⟨rfl, rfl⟩⟩
    unfold findLast
    rw [if_pos hend]
    rfl
  | cons c rest ih =>
    intro fuel cluster count last hfits hlinked hin hfuel hlead
    obtain ⟨n,rfl⟩ := Nat.exists_eq_succ_of_ne_zero (ne_of_gt (lt_of_le_of_lt (Nat.zero_le _) hfuel))
    obtain rfl : cluster = c := hlead
    have hc := hin cluster mem_cons_self
    obtain ⟨hend,-,-⟩ := not_end_of_cluster hfits hc
    obtain ⟨l,hl,hlast⟩ := ih n (getFatEntry v cluster) (count+1) cluster hfits hlinked.2
      (fun e he => hin e (mem_cons_of_mem _ he)) (Nat.lt_of_succ_lt_succ hfuel) hlinked.1
    refine ⟨l, ?_, .inr ?_⟩
    · unfold findLast
      rw [if_neg (by rw [hend]; exact Bool.false_ne_true),
        if_neg (fun h => h.elim (fun hlt => absurd hc.1 (not_le.mpr hlt))
          fun hgt => absurd hc.2 (not_le.mpr hgt)), hl, length_cons]
      congr 2
      omega
    · obtain ⟨rfl,rfl⟩ | ⟨front,rfl⟩ := hlast
      · exact ⟨[], rfl⟩
      · exact ⟨cluster :: front, rfl⟩

theorem loadLast_chain (hfits : v.Fits) (h : ChainOk v o cs) (hlast : LastOk cs o.fileLastCluster)
    (hsize : cs.length = sizeToClusters v o.fileSize) :
    (loadLast v o).1 = true ∧ ChainOk v (loadLast v o).2 cs ∧ LastIs cs (loadLast v o).2.fileLastCluster ∧
      (loadLast v o).2.fileSize = o.fileSize := by
  unfold loadLast
  split
  · next hneed =>
    have hlead : Leads o.fileCluster cs := by
      cases cs with
      | nil => exact absurd h.first hneed.1
      | cons c rest => exact h.first
    obtain ⟨l,hl,hend⟩ := findLast_chain cs (v.maxCluster+3) o.fileCluster 0 o.fileLastCluster hfits
      h.linked h.inside (by have := length_le_maxCluster h.nodup h.inside; omega) hlead
    unfold lastOf
    rw [hl, ← hsize, zero_add]
    refine ⟨by simp, ⟨h.inside, h.nodup, h.linked, h.first⟩, ?_, rfl⟩
    obtain ⟨hnil,rfl⟩ | hfront := hend
    · exact .inl ⟨hnil, hneed.2⟩
    · exact .inr hfront
  · next hknown =>
    refine ⟨rfl, h, ?_, rfl⟩
    obtain hz | hfront := hlast
    · refine .inl ⟨?_, hz⟩
      cases cs with
      | nil => rfl
      | cons c rest =>
        have hfst : o.fileCluster = c := h.first
        have hc := (not_end_of_cluster hfits (h.inside c mem_cons_self)).2.1
        exact absurd ⟨by rw [hfst]; exact hc, hz⟩ hknown
    · exact .inr hfront

theorem sizeToClusters_mono {a b : Nat} (v : Volume) (h : a ≤ b) : sizeToClusters v a ≤ sizeToClusters v b := by
  have ha := Nat.div_add_mod a (2^v.clusterAlignment)
  have hb := Nat.div_add_mod b (2^v.clusterAlignment)
  have hdiv := @Nat.div_le_div_right a b (2^v.clusterAlignment) h
  unfold sizeToClusters
  obtain hlt | heq := lt_or_eq_of_le hdiv
  · split <;> split <;> omega
  · rw [heq] at ha ⊢
    split <;> split <;> omega

theorem sizeToClusters_congr (h : v'.clusterAlignment = v.clusterAlignment) (size : Nat) :
    sizeToClusters v' size = sizeToClusters v size := by
  unfold sizeToClusters
  rw [h]

/-- What a growth does to the chain: it adds free clusters for the new size, or leaves the file as it was. -/
structure Growth (v : Volume) (o : OFile) (cs : List Nat) (newSize : Nat) (r : Status × Volume × OFile)
    (added : List Nat) : Prop where
  next : minCluster ≤ r.2.1.nextCluster
  chain : ChainOk r.2.1 r.2.2 (cs ++ added)
  last : LastOk (cs ++ added) r.2.2.fileLastCluster
  size : (cs ++ added).length = sizeToClusters r.2.1 r.2.2.fileSize
  free : ∀ c ∈ added, v.HasCluster c ∧ getFatEntry v c = clusterFree
  same : r.2.1.fatType = v.fatType ∧ r.2.1.maxCluster = v.maxCluster ∧
    r.2.1.clusterAlignment = v.clusterAlignment
  entry : ∀ j, v.HasCluster j → j ∉ cs ++ added → getFatEntry r.2.1 j = getFatEntry v j
  count : v.CountRight → r.2.1.CountRight
  info : v.InfoOk → r.2.1.InfoOk
  failed : r.1 ≠ .success → added = [] ∧ r.2.2.fileSize = o.fileSize
  full : r.1 = .volumeFull → v.InfoOk →
    (freeClusters v).length < sizeToClusters v newSize - sizeToClusters v o.fileSize
  grown : r.1 = .success → r.2.2.fileSize = newSize

theorem growth_growEof (hfits : v.Fits) (hmin : minCluster ≤ v.nextCluster) (h : ChainOk v o cs)
    (hlast : LastOk cs o.fileLastCluster) (hsize : cs.length = sizeToClusters v o.fileSize) {newSize : Nat}
    (hle : o.fileSize ≤ newSize) : ∃ added, Growth v o cs newSize (growEof v o newSize) added := by
  have hsame : ChainOk v o (cs ++ []) ∧ LastOk (cs ++ []) o.fileLastCluster ∧
      (cs ++ []).length = sizeToClusters v o.fileSize := by
    rw [append_nil]
    exact ⟨h, hlast, hsize⟩
  unfold growEof
  split
  · refine ⟨[], ⟨hmin, hsame.1, hsame.2.1, hsame.2.2, fun c hc => absurd hc not_mem_nil, ⟨rfl, rfl, rfl⟩,
      fun _ _ _ => rfl, id, id, fun _ => ⟨rfl, rfl⟩, (fun hs => by cases hs), (fun hs => by cases hs)⟩⟩
  split
  · next hmore =>
    obtain ⟨hfnd,hchain,hlastIs,hfile⟩ := loadLast_chain hfits h hlast hsize
    rw [if_pos hfnd]
    obtain ⟨added,hgrown,hout⟩ := grown_growLoop
      (sizeToClusters v newSize - sizeToClusters v o.fileSize) cs v _ hfits hmin hchain hlastIs
    have hal := sizeToClusters_congr hgrown.kept.clusterAlignment
    unfold growBy
    obtain ⟨hok,hlen⟩ | ⟨hfull,hlen,hinfo⟩ := hout
    · rw [if_pos hok]
      have hch := hgrown.chain
      refine ⟨added, ⟨hgrown.kept.next hmin, ⟨hch.inside, hch.nodup, hch.linked, hch.first⟩,
        hgrown.last.ok, ?_, hgrown.free, ⟨hgrown.kept.fatType, hgrown.kept.maxCluster,
        hgrown.kept.clusterAlignment⟩, hgrown.kept.entry, hgrown.kept.count, hgrown.kept.info,
        fun hs => absurd rfl hs, (fun hs => by cases hs), fun _ => rfl⟩⟩
      dsimp only
      rw [hal, length_append, hlen, hsize]
      omega
    · have hnot : ¬(growLoop (sizeToClusters v newSize - sizeToClusters v o.fileSize)
          (loadLast v o).2.fileLastCluster v (loadLast v o).2).1 = .success := by
        rw [hfull]
        decide
      rw [if_neg hnot]
      have hback : cs.length = sizeToClusters
          (growLoop (sizeToClusters v newSize - sizeToClusters v o.fileSize)
            (loadLast v o).2.fileLastCluster v (loadLast v o).2).2.1
          (growLoop (sizeToClusters v newSize - sizeToClusters v o.fileSize)
            (loadLast v o).2.fileLastCluster v (loadLast v o).2).2.2.fileSize := by
        rw [hal, hgrown.size, hfile]
        exact hsize
      have hshrunk := shrunk_shrinkEof (hgrown.kept.fits hfits) hgrown.chain hgrown.last.ok hback
      have hall := hgrown.kept.trans hshrunk.kept
      have hfileSize := (hshrunk.size.trans hgrown.size).trans hfile
      unfold undoGrowth
      refine ⟨[], ⟨hall.next hmin, ?_, ?_, ?_, fun c hc => absurd hc not_mem_nil,
        ⟨hall.fatType, hall.maxCluster, hall.clusterAlignment⟩, fun j hj hn => ?_, hall.count, hall.info,
        fun _ => ⟨rfl, hfileSize⟩, fun _ hi => ?_, fun hs => ?_⟩⟩
      · rw [append_nil]
        exact hshrunk.chain
      · rw [append_nil]
        exact hshrunk.last
      · rw [append_nil]
        rw [hfileSize, sizeToClusters_congr hall.clusterAlignment]
        exact hsize
      · rw [append_nil] at hn
        by_cases hadded : j ∈ added
        · exact (hshrunk.freed j hadded).trans (hgrown.free j hadded).2.symm
        · exact hall.entry j hj fun hin => (mem_append.mp hin).elim hn hadded
      · rw [hinfo hi]
        exact hlen
      · exact absurd hs hnot
  · next hnone =>
    refine ⟨[], ⟨hmin, ⟨hsame.1.inside, hsame.1.nodup, hsame.1.linked, hsame.1.first⟩, hsame.2.1, ?_,
      fun c hc => absurd hc not_mem_nil, ⟨rfl, rfl, rfl⟩, fun _ _ _ => rfl, id, id,
      fun hs => absurd rfl hs, (fun hs => by cases hs), fun _ => rfl⟩⟩
    dsimp only
    have := sizeToClusters_mono v hle
    omega

/-- Every file has a chain of its own, as long as its size says, and every other cluster is free. -/
structure WellFormed (v : Volume) (files : F → OFile) (chains : F → List Nat) : Prop where
  fits : v.Fits
  next : minCluster ≤ v.nextCluster
  chain : ∀ f, ChainOk v (files f) (chains f)
  last : ∀ f, LastOk (chains f) (files f).fileLastCluster
  size : ∀ f, (chains f).length = sizeToClusters v (files f).fileSize
  disjoint : ∀ f f', f ≠ f' → ∀ c ∈ chains f, c ∉ chains f'
  free : ∀ c, v.HasCluster c → (∀ f, c ∉ chains f) → getFatEntry v c = clusterFree

variable {chains : F → List Nat}

theorem WellFormed.replace {files : F → OFile} (h : WellFormed v files chains) {f : F}
    {o' : OFile} {cs' : List Nat} (hnext : minCluster ≤ v'.nextCluster)
    (hsame : v'.fatType = v.fatType ∧ v'.maxCluster = v.maxCluster ∧ v'.clusterAlignment = v.clusterAlignment)
    (hch : ChainOk v' o' cs') (hlast : LastOk cs' o'.fileLastCluster)
    (hsize : cs'.length = sizeToClusters v' o'.fileSize)
    (hent : ∀ j, v.HasCluster j → j ∉ chains f → j ∉ cs' → getFatEntry v' j = getFatEntry v j)
    (hnew : ∀ c ∈ cs', c ∈ chains f ∨ getFatEntry v c = clusterFree)
    (hfreed : ∀ c ∈ chains f, c ∉ cs' → getFatEntry v' c = clusterFree) :
    WellFormed v' (update files f o') (update chains f cs') := by
  have hin (c : Nat) : v'.HasCluster c ↔ v.HasCluster c := by
    unfold Volume.HasCluster
    rw [hsame.2.1]
  have hapart (f' : F) (hf : f' ≠ f) (c : Nat) (hc : c ∈ chains f') : c ∉ cs' := by
    intro hcs
    obtain hold | hfree := hnew c hcs
    · exact h.disjoint f' f hf c hc hold
    · exact (h.chain f').linked.entry_ne (h.chain f').inside hc hfree
  constructor
  · unfold Volume.Fits
    rw [hsame.1, hsame.2.1]
    exact h.fits
  · exact hnext
  · intro f'
    by_cases hf : f' = f
    · subst hf
      rw [update_self, update_self]
      exact hch
    rw [update_of_ne hf, update_of_ne hf]
    obtain ⟨hins,hnodup,hlink,hfst⟩ := h.chain f'
    refine ⟨fun c hc => (hin c).mpr (hins c hc), hnodup, hlink.congr fun c hc => ?_, hfst⟩
    exact hent c (hins c hc) (h.disjoint f' f hf c hc) (hapart f' hf c hc)
  · intro f'
    by_cases hf : f' = f
    · subst hf
      rw [update_self, update_self]
      exact hlast
    · rw [update_of_ne hf, update_of_ne hf]
      exact h.last f'
  · intro f'
    by_cases hf : f' = f
    · subst hf
      rw [update_self, update_self]
      exact hsize
    · rw [update_of_ne hf, update_of_ne hf, sizeToClusters_congr hsame.2.2]
      exact h.size f'
  · intro f₁ f₂ hne c hc
    by_cases h₁ : f₁ = f
    · subst h₁
      rw [update_self] at hc
      rw [update_of_ne (Ne.symm hne)]
      exact fun hin => hapart f₂ (Ne.symm hne) c hin hc
    rw [update_of_ne h₁] at hc
    by_cases h₂ : f₂ = f
    · subst h₂
      rw [update_self]
      exact hapart f₁ h₁ c hc
    · rw [update_of_ne h₂]
      exact h.disjoint f₁ f₂ hne c hc
  · intro c hc hnone
    have hcs : c ∉ cs' := by
      have := hnone f
      rw [update_self] at this
      exact this
    by_cases hold : c ∈ chains f
    · exact hfreed c hold hcs
    rw [hent c ((hin c).mp hc) hold hcs]
    refine h.free c ((hin c).mp hc) fun f' => ?_
    by_cases hf : f' = f
    · rw [hf]
      exact hold
    · have := hnone f'
      rw [update_of_ne hf] at this
      exact this

structure State (F : Type) where
  volume : Volume
  files : F → OFile

inductive Op (F : Type)
  | grow (f : F) (newSize : Nat)
  | shrink (f : F) (newSize : Nat)

def Op.result (s : State F) : Op F → Status × Volume × OFile
  | .grow f newSize => growEof s.volume (s.files f) newSize
  | .shrink f newSize => shrinkEof s.volume { s.files f with fileSize := newSize }

def Op.file : Op F → F
  | .grow f _ => f
  | .shrink f _ => f

def Op.run (op : Op F) (s : State F) : State F :=
  ⟨(op.result s).2.1, update s.files op.file (op.result s).2.2⟩

def Op.Called (s : State F) : Op F → Prop
  | .grow f newSize => (s.files f).fileSize ≤ newSize
  | .shrink f newSize => newSize ≤ (s.files f).fileSize

def runOps : List (Op F) → State F → State F
  | [], s => s
  | op :: ops, s => runOps ops (op.run s)

def CalledRun : List (Op F) → State F → Prop
  | [], _ => True
  | op :: ops, s => op.Called s ∧ CalledRun ops (op.run s)

/-- What an operation does to the volume: the chain of its file becomes a longer or a shorter one, with no other
cluster touched than those of the file and free ones. -/
structure Does (s : State F) (chains : F → List Nat) (op : Op F) (cs : List Nat) : Prop where
  wellFormed : WellFormed (op.run s).volume (op.run s).files (update chains op.file cs)
  front : cs <+: chains op.file ∨ chains op.file <+: cs
  entry : ∀ j, s.volume.HasCluster j → j ∉ chains op.file → getFatEntry s.volume j ≠ clusterFree →
    getFatEntry (op.run s).volume j = getFatEntry s.volume j
  count : s.volume.CountRight → (op.run s).volume.CountRight
  info : s.volume.InfoOk → (op.run s).volume.InfoOk

section
variable {s : State F} (h : WellFormed s.volume s.files chains)
include h

theorem does_grow {f : F} {newSize : Nat} (hle : (s.files f).fileSize ≤ newSize) :
    ∃ added, Does s chains (.grow f newSize) (chains f ++ added) ∧
      ((growEof s.volume (s.files f) newSize).1 ≠ .success → added = [] ∧
        (growEof s.volume (s.files f) newSize).2.2.fileSize = (s.files f).fileSize) ∧
      ((growEof s.volume (s.files f) newSize).1 = .volumeFull → s.volume.InfoOk →
        (freeClusters s.volume).length <
          sizeToClusters s.volume newSize - sizeToClusters s.volume (s.files f).fileSize) := by
  obtain ⟨added,hg⟩ := growth_growEof h.fits h.next (h.chain f) (h.last f) (h.size f) hle
  have hreplace := h.replace hg.next hg.same hg.chain hg.last hg.size (f := f)
    (fun j hj _ hn => hg.entry j hj hn)
    (fun c hc => (mem_append.mp hc).imp_right fun hadded => (hg.free c hadded).2)
    (fun c hc hn => absurd (mem_append.mpr (.inl hc)) hn)
  refine ⟨added, ⟨hreplace, .inr (prefix_append _ _), fun j hj hn hfree => ?_, hg.count, hg.info⟩,
    hg.failed, hg.full⟩
  refine hg.entry j hj fun hin => ?_
  obtain hin | hin := mem_append.mp hin
  · exact hn hin
  · exact hfree (hg.free j hin).2

theorem does_shrink {f : F} {newSize : Nat} (hle : newSize ≤ (s.files f).fileSize) :
    ∃ keep, keep <+: chains f ∧ Does s chains (.shrink f newSize) keep ∧
      (shrinkEof s.volume { s.files f with fileSize := newSize }).1 = .success := by
  have hlen : sizeToClusters s.volume newSize ≤ (chains f).length := by
    rw [h.size f]
    exact sizeToClusters_mono _ hle
  have hsplit := take_append_drop (sizeToClusters s.volume newSize) (chains f)
  obtain ⟨hin,hn,hl,hfst⟩ := h.chain f
  have hch : ChainOk s.volume { s.files f with fileSize := newSize }
      ((chains f).take (sizeToClusters s.volume newSize) ++
        (chains f).drop (sizeToClusters s.volume newSize)) := by
    rw [hsplit]
    exact ⟨hin, hn, hl, hfst⟩
  have hlast := h.last f
  rw [← hsplit] at hlast
  have htake : ((chains f).take (sizeToClusters s.volume newSize)).length =
      sizeToClusters s.volume newSize := length_take_of_le hlen
  have hs := shrunk_shrinkEof h.fits hch hlast htake
  have hkept := hs.kept
  rw [hsplit] at hkept
  have hreplace := h.replace (hkept.next h.next) ⟨hkept.fatType, hkept.maxCluster, hkept.clusterAlignment⟩
    hs.chain hs.last (f := f) (by rw [htake, hs.size, sizeToClusters_congr hkept.clusterAlignment])
    (fun j hj hn _ => hkept.entry j hj hn) (fun c hc => .inl (mem_of_mem_take hc))
    (fun c hc hn => by
      rw [← hsplit] at hc
      exact hs.freed c ((mem_append.mp hc).resolve_left hn))
  refine ⟨_, take_prefix _ _, ⟨hreplace, .inl ( take_prefix _ _), fun j hj hn _ => hkept.entry j hj hn, hkept.count,
    hkept.info⟩, hs.success⟩

theorem does_op (op : Op F) (hcalled : op.Called s) : ∃ cs, Does s chains op cs := by
  cases op with
  | grow f newSize =>
    obtain ⟨added,hd,-⟩ := does_grow h hcalled
    exact ⟨_, hd⟩
  | shrink f newSize =>
    obtain ⟨keep,-,hd,-⟩ := does_shrink h hcalled
    exact ⟨keep, hd⟩

end

theorem wellFormed_runOps : ∀ (ops : List (Op F)) (s : State F) (chains : F → List Nat),
    WellFormed s.volume s.files chains → CalledRun ops s →
    ∃ chains', WellFormed (runOps ops s).volume (runOps ops s).files chains' ∧
      (s.volume.CountRight → (runOps ops s).volume.CountRight) ∧
      (s.volume.InfoOk → (runOps ops s).volume.InfoOk) := by
  intro ops
  induction ops with
  | nil =>
    intro s chains h _
    exact ⟨chains, h, id, id⟩
  | cons op rest ih =>
    intro s chains h hcalled
    obtain ⟨cs,hd⟩ := does_op h op hcalled.1
    obtain ⟨chains',hw,hc,hi⟩ := ih (op.run s) _ hd.wellFormed hcalled.2
    exact ⟨chains', hw, fun h => hc (hd.count h), fun h => hi (hd.info h)⟩

/-- In any run from a well-formed volume every state is well formed, with a right count where it was right; and
there any growth adds free clusters at the end of the chain, or fails and leaves the file as it was, for lack of
clusters only where too few are free, while a shrinking keeps the front of the chain; and no cluster of another
file changes its entry. -/
theorem file_space_kept (s : State F) (chains : F → List Nat) (h : WellFormed s.volume s.files chains)
    (ops : List (Op F)) (hrun : CalledRun ops s) :
    ∃ chains', WellFormed (runOps ops s).volume (runOps ops s).files chains' ∧
      (s.volume.CountRight → (runOps ops s).volume.CountRight) ∧
      (∀ f newSize, (Op.grow f newSize).Called (runOps ops s) →
        ∃ added, Does (runOps ops s) chains' (.grow f newSize) (chains' f ++ added) ∧
          ((growEof (runOps ops s).volume ((runOps ops s).files f) newSize).1 ≠ .success → added = [] ∧
            (growEof (runOps ops s).volume ((runOps ops s).files f) newSize).2.2.fileSize =
              ((runOps ops s).files f).fileSize) ∧
          ((growEof (runOps ops s).volume ((runOps ops s).files f) newSize).1 = .volumeFull →
            s.volume.InfoOk → (freeClusters (runOps ops s).volume).length <
              sizeToClusters (runOps ops s).volume newSize -
                sizeToClusters (runOps ops s).volume ((runOps ops s).files f).fileSize)) ∧
      ∀ f newSize, (Op.shrink f newSize).Called (runOps ops s) →
        ∃ keep, keep <+: chains' f ∧ Does (runOps ops s) chains' (.shrink f newSize) keep := by
  obtain ⟨chains',hw,hc,hi⟩ := wellFormed_runOps ops s chains h hrun
  refine ⟨chains', hw, hc, fun f newSize hcalled => ?_, fun f newSize hcalled => ?_⟩
  · obtain ⟨added,hd,hfailed,hfull⟩ := does_grow hw hcalled
    exact ⟨added, hd, hfailed, fun hs hinfo => hfull hs (hi hinfo)⟩
  · obtain ⟨keep,hfront,hd,-⟩ := does_shrink hw hcalled
    exact ⟨keep, hfront, hd⟩

/-- The smallest FAT32 volume. Its last cluster is the end of a chain, and its information sector gives the
free clusters. -/
def lastCluster (clusterCount : Nat) : Volume where
  fatType := .fat32
  maxCluster := 65525
  clusterAlignment := 9
  fat pos := if 262104 ≤ pos ∧ pos < 262108 then 0xFF else 0
  dirtyValue _ := 7
  fatDirty := false
  clusterCount := clusterCount
  nextCluster := 65526
  freeInfoValid := true
  diskError := false

def oneCluster : OFile where
  fileCluster := 65526
  fileCurrentCluster := 65526
  fileLastCluster := 65526
  fileSize := 512
  dirty := false

theorem getFatEntry_lastCluster {c : Nat} (clusterCount : Nat) (hc : c < 65526) :
    getFatEntry (lastCluster clusterCount) c = clusterFree := by
  have hzero (q : Nat) (hq : q < 262104) : (lastCluster clusterCount).fat q = 0 :=
    if_neg fun h => absurd h.1 (not_le.mpr hq)
  have hword : word (lastCluster clusterCount).fat (c*4) .fat32 = 0 := by
    unfold word
    rw [hzero (c*4) (by omega), hzero (c*4+1) (by omega), hzero (c*4+2) (by omega), hzero (c*4+3) (by omega)]
    rfl
  have hin : ¬(lastCluster clusterCount).maxCluster+1 < c := not_lt.mpr (le_of_lt hc)
  unfold getFatEntry
  rw [if_neg hin]
  change extend .fat32 (word (lastCluster clusterCount).fat (c*4) .fat32 % 0x10000000) = clusterFree
  rw [hword]
  rfl

theorem freeClusters_lastCluster (clusterCount : Nat) :
    freeClusters (lastCluster clusterCount) = range' 2 65524 := by
  have hlast : getFatEntry (lastCluster clusterCount) 65526 ≠ clusterFree := by
    change getFatEntry (lastCluster 0) 65526 ≠ clusterFree
    decide +kernel
  unfold freeClusters
  change (range' 2 65525).filter _ = _
  rw [range'_1_concat, filter_append, filter_cons_of_neg (by rw [beq_iff_eq]; exact hlast), filter_nil,
    append_nil, filter_eq_self]
  intro c hc
  rw [mem_range'_1] at hc
  rw [beq_iff_eq]
  exact getFatEntry_lastCluster clusterCount (by omega)

theorem wellFormed_lastCluster (clusterCount : Nat) :
    WellFormed (lastCluster clusterCount) (fun _ : Unit => oneCluster) fun _ => [65526] := by
  have hfits : 65526 < 0x0FFFFFF7 := by decide
  have hnext : 2 ≤ 65526 := by decide
  have hsize : 1 = 512 / 2^9 + if 0 < 512 % 2^9 then 1 else 0 := by decide
  refine ⟨hfits, hnext, fun _ => ⟨?_, by decide, ⟨?_, trivial⟩, rfl⟩,
    fun _ => .inr ⟨[], rfl⟩, fun _ => hsize, fun f f' hne => absurd rfl hne, fun c hc hnone => ?_⟩
  · intro c hc
    rw [mem_singleton.mp hc]
    exact ⟨hnext, le_rfl⟩
  · change endOfFatChain (getFatEntry (lastCluster 0) 65526) = true
    decide +kernel
  · have hle : c ≤ 65526 := hc.2
    have hne : c ≠ 65526 := fun h => hnone () (mem_singleton.mpr h)
    exact getFatEntry_lastCluster clusterCount (by omega)

def grownAndShrunk : State Unit :=
  runOps [.grow () 513, .shrink () 1] ⟨lastCluster 65524, fun _ => oneCluster⟩

/-- The file grows into the free cluster 2 and is shrunk again; then it can grow as long as a cluster is free. -/
theorem file_space_kept_last : ∃ chains' : Unit → List Nat,
    WellFormed grownAndShrunk.volume grownAndShrunk.files chains' ∧ grownAndShrunk.volume.CountRight ∧
      ∃ added, Does grownAndShrunk chains' (.grow () 1025) (chains' () ++ added) ∧
        ((growEof grownAndShrunk.volume (grownAndShrunk.files ()) 1025).1 = .volumeFull →
          (freeClusters grownAndShrunk.volume).length < 2) := by
  have hgrow : 512 ≤ 513 := by decide
  have hshrink : 1 ≤ (growEof (lastCluster 65524) oneCluster 513).2.2.fileSize := by decide +kernel
  have hcount : (lastCluster 65524).CountRight := by
    unfold Volume.CountRight
    rw [freeClusters_lastCluster, length_range']
    rfl
  have hagain : (grownAndShrunk.files ()).fileSize ≤ 1025 := by decide +kernel
  obtain ⟨chains',hw,hc,hgrows,-⟩ := file_space_kept ⟨lastCluster 65524, fun _ => oneCluster⟩ (fun _ => [65526])
    (wellFormed_lastCluster 65524) [.grow () 513, .shrink () 1] ⟨hgrow, hshrink, trivial⟩
  obtain ⟨added,hd,-,hfull⟩ := hgrows () 1025 hagain
  have hneed : sizeToClusters grownAndShrunk.volume 1025 -
      sizeToClusters grownAndShrunk.volume (grownAndShrunk.files ()).fileSize = 2 := by decide +kernel
  refine ⟨chains', hw, hc hcount, added, hd, fun h => ?_⟩
  rw [← hneed]
  exact hfull h ⟨rfl, fun _ => hcount⟩

/-- Where the information sector says that no cluster is free, or a transfer has failed before, a growth fails though
clusters are free; a growth to a smaller size leaves a longer chain than the size requires; and a growth sets the
dirty flag, in entry 1. -/
theorem stale_count_is_full : WellFormed (lastCluster 0) (fun _ : Unit => oneCluster) (fun _ => [65526]) ∧
      (growEof (lastCluster 0) oneCluster 513).1 = .volumeFull ∧
      (freeClusters (lastCluster 0)).length = 65524 ∧
      sizeToClusters (lastCluster 0) 513 - sizeToClusters (lastCluster 0) 512 = 1 ∧
      (growEof { lastCluster 65524 with diskError := true } oneCluster 513).1 = .volumeFull ∧
      (growEof (lastCluster 0) oneCluster 0).1 = .success ∧
      (growEof (lastCluster 0) oneCluster 0).2.2.fileCluster = 65526 ∧
      sizeToClusters (growEof (lastCluster 0) oneCluster 0).2.1
        (growEof (lastCluster 0) oneCluster 0).2.2.fileSize = 0 ∧
      getFatEntry (growEof (lastCluster 65524) oneCluster 513).2.1 1 ≠ getFatEntry (lastCluster 65524) 1 :=
  ⟨wellFormed_lastCluster 0, by decide +kernel, by rw [freeClusters_lastCluster, length_range'], by decide +kernel,
    by decide +kernel, by decide +kernel, by decide +kernel, by decide +kernel, by decide +kernel⟩

end Liano.Fat.Space
