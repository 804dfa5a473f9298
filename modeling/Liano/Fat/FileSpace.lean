import Liano.Fat.Chains

/-! Shrinking and growing the chain of one file. -/
namespace Liano.Fat.Space

open List

variable {v v' : Volume} {o : OFile} {cs keep drop rest : List Nat} {c d cluster last count : Nat}

theorem freeFrom_chain : ∀ (cs : List Nat) (fuel : Nat) (v : Volume) (cluster : Nat), v.Fits → Linked v cs →
    (∀ c ∈ cs, v.HasCluster c) → cs.Nodup → cs.length < fuel → Leads cluster cs →
    (freeFrom fuel v cluster).1 = .success ∧ Kept cs v (freeFrom fuel v cluster).2 ∧
      ∀ c ∈ cs, getFatEntry (freeFrom fuel v cluster).2 c = clusterFree := by
  intro cs
  induction cs with
  | nil =>
    intro fuel v cluster _ _ _ _ hfuel hlead
    obtain ⟨n,rfl⟩ := Nat.exists_eq_succ_of_ne_zero (ne_of_gt hfuel)
    have hend : endOfFatChain cluster = true := hlead
    unfold freeFrom
    rw [if_pos hend]
    exact ⟨rfl, Kept.refl _ v, fun c hc => absurd hc not_mem_nil⟩
  | cons c rest ih =>
    intro fuel v cluster hfits hlink hin hnodup hfuel hlead
    obtain ⟨n,rfl⟩ := Nat.exists_eq_succ_of_ne_zero (ne_of_gt (lt_of_le_of_lt (Nat.zero_le _) hfuel))
    obtain rfl : cluster = c := hlead
    have hc := hin cluster mem_cons_self
    obtain ⟨hend,hfree,hspecial⟩ := not_end_of_cluster hfits hc
    rw [nodup_cons] at hnodup
    have hset := @kept_setFatEntry v cluster clusterFree (cluster :: rest) hfits hc mem_cons_self
      (plain_free _)
    have hrest (e : Nat) (he : e ∈ rest) : getFatEntry (setFatEntry v cluster clusterFree) e = getFatEntry v e := by
      rw [getFatEntry_setFatEntry hc (hin e (mem_cons_of_mem _ he)), if_neg]
      rintro rfl
      exact hnodup.1 he
    obtain ⟨hok,hkept,hall⟩ := ih n (setFatEntry v cluster clusterFree) (getFatEntry v cluster)
      (hset.fits hfits) (hlink.2.congr hrest)
      (fun e he => hset.hasCluster.mpr (hin e (mem_cons_of_mem _ he))) hnodup.2
      (Nat.lt_of_succ_lt_succ hfuel) hlink.1
    unfold freeFrom
    rw [if_neg (by rw [hend]; exact Bool.false_ne_true),
      if_neg (fun h => h.elim hfree fun hge => absurd hspecial (not_lt.mpr hge))]
    refine ⟨hok, hset.trans (hkept.mono fun e he => mem_cons_of_mem _ he), fun e he => ?_⟩
    obtain rfl | he := mem_cons.mp he
    · rw [hkept.entry e (hset.hasCluster.mpr hc) hnodup.1, getFatEntry_setFatEntry hc hc, if_pos rfl,
        extend_free]
    · exact hall e he

theorem walk_chain : ∀ (cs : List Nat) (cluster last : Nat), v.Fits → Linked v (cs ++ d :: rest) →
    (∀ c ∈ cs ++ [d], v.HasCluster c) → Leads cluster (cs ++ d :: rest) →
    walk v (cs.length+1) cluster last = some (getFatEntry v d, d) := by
  intro cs
  induction cs with
  | nil =>
    intro cluster last hfits _ hin hlead
    obtain rfl : cluster = d := hlead
    obtain ⟨-,hfree,hspecial⟩ := not_end_of_cluster hfits (hin cluster (mem_append.mpr (.inr
      mem_cons_self)))
    unfold walk
    rw [if_neg (fun h => h.elim hfree fun hge => absurd hspecial (not_lt.mpr hge))]
    rfl
  | cons a cs ih =>
    intro cluster last hfits hlinked hin hlead
    obtain rfl : cluster = a := hlead
    obtain ⟨-,hfree,hspecial⟩ := not_end_of_cluster hfits (hin cluster mem_cons_self)
    unfold walk
    rw [if_neg (fun h => h.elim hfree fun hge => absurd hspecial (not_lt.mpr hge))]
    exact ih (getFatEntry v cluster) cluster hfits hlinked.2 (fun e he => hin e (mem_cons_of_mem _ he))
      hlinked.1

structure ChainOk (v : Volume) (o : OFile) (cs : List Nat) : Prop where
  inside : ∀ c ∈ cs, v.HasCluster c
  nodup : cs.Nodup
  linked : Linked v cs
  first : o.fileCluster = cs.headD 0

def LastIs (cs : List Nat) (last : Nat) : Prop := cs = [] ∧ last = 0 ∨ ∃ front, cs = front ++ [last]

def LastOk (cs : List Nat) (last : Nat) : Prop := last = 0 ∨ ∃ front, cs = front ++ [last]

theorem LastIs.ok (h : LastIs cs last) : LastOk cs last := h.imp_left fun h => h.2

theorem ChainOk.leads (h : ChainOk v o (c :: rest)) : Leads o.fileCluster (c :: rest) := h.first

structure Shrunk (v : Volume) (o : OFile) (keep drop : List Nat) (r : Status × Volume × OFile) : Prop where
  success : r.1 = .success
  kept : Kept (keep ++ drop) v r.2.1
  chain : ChainOk r.2.1 r.2.2 keep
  last : LastOk keep r.2.2.fileLastCluster
  freed : ∀ c ∈ drop, getFatEntry r.2.1 c = clusterFree
  size : r.2.2.fileSize = o.fileSize

theorem freeChain_chain (hfits : v.Fits) (hlink : Linked v cs) (hin : ∀ c ∈ cs, v.HasCluster c)
    (hn : cs.Nodup) (hlead : Leads cluster cs) :
    (freeChain v cluster).1 = .success ∧ Kept cs v (freeChain v cluster).2 ∧
      ∀ c ∈ cs, getFatEntry (freeChain v cluster).2 c = clusterFree := by
  refine freeFrom_chain cs _ v cluster hfits hlink hin hn ?_ hlead
  have := length_le_maxCluster hn hin
  omega

theorem shrunk_shrinkEof (hfits : v.Fits) (h : ChainOk v o (keep ++ drop))
    (hlast : LastOk (keep ++ drop) o.fileLastCluster) (hsize : keep.length = sizeToClusters v o.fileSize) :
    Shrunk v o keep drop (shrinkEof v o) := by
  have hdropIn (c : Nat) (hc : c ∈ drop) : v.HasCluster c := h.inside c (mem_append.mpr (.inr hc))
  have hdropNodup : drop.Nodup := (nodup_append.mp h.nodup).2.1
  have hdropLink : Linked v drop := h.linked.append
  unfold shrinkEof
  obtain rfl | ⟨front,d,rfl⟩ := eq_nil_or_concat' keep
  · have hz : sizeToClusters v o.fileSize = 0 := hsize.symm
    rw [if_pos hz]
    cases drop with
    | nil =>
      have hfst : o.fileCluster = clusterFree := h.first
      rw [if_pos hfst]
      refine ⟨rfl, Kept.refl _ v, h, ?_, fun c hc => absurd hc not_mem_nil, rfl⟩
      exact hlast
    | cons c rest =>
      have hfst : o.fileCluster = c := h.first
      have hc := (not_end_of_cluster hfits (hdropIn c mem_cons_self)).2.1
      rw [if_neg (by rw [hfst]; exact hc)]
      obtain ⟨hok,hkept,hfreed⟩ := freeChain_chain hfits hdropLink hdropIn hdropNodup h.leads
      refine ⟨hok, hkept, ⟨fun c hc => absurd hc not_mem_nil, nodup_nil, trivial, rfl⟩, .inl rfl,
        hfreed, rfl⟩
  · have hlen : sizeToClusters v o.fileSize = front.length+1 := by
      rw [← hsize, length_append]
      rfl
    have hlink : Linked v (front ++ d :: drop) := by
      have := h.linked
      rw [append_assoc] at this
      exact this
    have hnodup : (front ++ d :: drop).Nodup := by
      have := h.nodup
      rw [append_assoc] at this
      exact this
    have hfrontIn (c : Nat) (hc : c ∈ front ++ [d]) : v.HasCluster c :=
      h.inside c (mem_append.mpr (.inl hc))
    have hlead : Leads o.fileCluster (front ++ d :: drop) := by
      have hfst := h.first
      cases front <;> exact hfst
    have hdin : v.HasCluster d := hfrontIn d (mem_append.mpr (.inr mem_cons_self))
    have hdout : d ∉ drop := by
      have := (nodup_append.mp hnodup).2.1
      exact (nodup_cons.mp this).1
    have hset := @kept_setFatEntry v d clusterLast (front ++ [d] ++ drop) hfits hdin
      (mem_append.mpr (.inl (mem_append.mpr (.inr mem_cons_self)))) (plain_last _)
    have hdrop (e : Nat) (he : e ∈ drop) : getFatEntry (setFatEntry v d clusterLast) e = getFatEntry v e := by
      rw [getFatEntry_setFatEntry hdin (hdropIn e he), if_neg]
      rintro rfl
      exact hdout he
    have hleadDrop : Leads (getFatEntry v d) drop := (Linked.append hlink).1
    obtain ⟨hok,hkept,hfreed⟩ := freeChain_chain (hset.fits hfits) (hdropLink.congr hdrop)
      (fun c hc => hset.hasCluster.mpr (hdropIn c hc)) hdropNodup hleadDrop
    rw [hlen, if_neg (Nat.succ_ne_zero _), walk_chain front o.fileCluster clusterFree hfits hlink hfrontIn
      hlead]
    have hall := hset.trans (hkept.mono fun e he => mem_append.mpr (.inr he))
    refine ⟨hok, hall, ⟨fun c hc => hall.hasCluster.mpr (hfrontIn c hc),
      (nodup_append.mp h.nodup).1, ?_, ?_⟩, .inr ⟨front, rfl⟩, hfreed, rfl⟩
    · refine hlink.cut ?_ fun e he => ?_
      · rw [hkept.entry d (hset.hasCluster.mpr hdin) hdout, getFatEntry_setFatEntry hdin hdin, if_pos rfl]
        exact (extend_last _).1
      · have hein : v.HasCluster e := hfrontIn e (mem_append.mpr (.inl he))
        have hdisj := (nodup_append.mp hnodup).2.2
        have hed : e ≠ d := hdisj e he d mem_cons_self
        have hedrop : e ∉ drop := fun hin => hdisj e he e (mem_cons_of_mem _ hin) rfl
        rw [hkept.entry e (hset.hasCluster.mpr hein) hedrop, getFatEntry_setFatEntry hdin hein, if_neg hed]
    · have hfst := h.first
      cases front <;> exact hfst

structure Grown (v : Volume) (o : OFile) (cs added : List Nat) (v' : Volume) (o' : OFile) : Prop where
  kept : Kept (cs ++ added) v v'
  chain : ChainOk v' o' (cs ++ added)
  last : LastIs (cs ++ added) o'.fileLastCluster
  size : o'.fileSize = o.fileSize
  free : ∀ c ∈ added, v.HasCluster c ∧ getFatEntry v c = clusterFree

theorem ChainOk.not_mem_free (h : ChainOk v o cs) (hfree : getFatEntry v c = clusterFree) : c ∉ cs :=
  fun hin => h.linked.entry_ne h.inside hin hfree

section Link

variable (hfits : v.Fits) (h : ChainOk v o cs) (hlast : LastIs cs o.fileLastCluster) (hc : v.HasCluster c)
  (hfree : getFatEntry v c = clusterFree)
include hfits h hlast hc hfree

theorem grown_link : Grown v o cs [c] (linkCluster v o.fileLastCluster c) (linkFile o o.fileLastCluster c) ∧
    (freeClusters v).length = (freeClusters (linkCluster v o.fileLastCluster c)).length + 1 := by
  have hout : c ∉ cs := h.not_mem_free hfree
  have hlink := extend_cluster hfits hc
  have hcne := (not_end_of_cluster hfits hc).2.1
  have hnodup : (cs ++ [c]).Nodup := by
    refine nodup_append.mpr ⟨h.nodup, nodup_singleton c, fun a ha b hb => ?_⟩
    obtain rfl := mem_singleton.mp hb
    rintro rfl
    exact hout ha
  have hfreeMem (e : Nat) (he : e ∈ [c]) : v.HasCluster e ∧ getFatEntry v e = clusterFree := by
    obtain rfl := mem_singleton.mp he
    exact ⟨hc, hfree⟩
  unfold linkCluster linkFile
  obtain ⟨rfl,hzero⟩ | ⟨front,hcs⟩ := hlast
  · have hz : ¬o.fileLastCluster ≠ 0 := fun hne => hne hzero
    rw [if_neg hz, if_neg hz]
    have hset := @kept_setFatEntry v c clusterLast ([] ++ [c]) hfits hc mem_cons_self (plain_last _)
    have hself : getFatEntry (setFatEntry v c clusterLast) c =
        extend v.fatType (clusterLast % v.fatType.values) := by
      rw [getFatEntry_setFatEntry hc hc, if_pos rfl]
    refine ⟨⟨hset, ⟨fun e he => ?_, hnodup, ⟨?_, trivial⟩, rfl⟩, .inr ⟨[], rfl⟩, rfl, hfreeMem⟩, ?_⟩
    · exact hset.hasCluster.mpr (hfreeMem e he).1
    · change endOfFatChain _ = true
      rw [hself]
      exact (extend_last _).1
    · exact (length_freeClusters_set hc).1 hfree (extend_last _).2
  · have hlin : v.HasCluster o.fileLastCluster := by
      refine h.inside _ ?_
      rw [hcs]
      exact mem_append.mpr (.inr mem_cons_self)
    have hlmem : o.fileLastCluster ∈ cs := by
      rw [hcs]
      exact mem_append.mpr (.inr mem_cons_self)
    have hne : o.fileLastCluster ≠ 0 := (not_end_of_cluster hfits hlin).2.1
    have hlc : o.fileLastCluster ≠ c := fun he => hout (he ▸ hlmem)
    have hlnonfree := h.linked.entry_ne h.inside hlmem
    rw [if_pos hne, if_pos hne]
    have hset := @kept_setFatEntry v o.fileLastCluster c (cs ++ [c]) hfits hlin
      (mem_append.mpr (.inl hlmem)) (plain_cluster hfits hc)
    have hc' : (setFatEntry v o.fileLastCluster c).HasCluster c := hset.hasCluster.mpr hc
    have htype := hset.fatType
    have hset' := @kept_setFatEntry (setFatEntry v o.fileLastCluster c) c clusterLast (cs ++ [c])
      (hset.fits hfits) hc'
      (mem_append.mpr (.inr mem_cons_self)) (plain_last _)
    have hall := hset.trans hset'
    have hent (e : Nat) (he : v.HasCluster e) :
        getFatEntry (setFatEntry (setFatEntry v o.fileLastCluster c) c clusterLast) e =
          if e = c then extend v.fatType (clusterLast % v.fatType.values)
          else if e = o.fileLastCluster then c else getFatEntry v e := by
      rw [getFatEntry_setFatEntry hc' (hset.hasCluster.mpr he), htype, getFatEntry_setFatEntry hlin he, hlink]
    have hfree' : getFatEntry (setFatEntry v o.fileLastCluster c) c = clusterFree := by
      rw [getFatEntry_setFatEntry hlin hc, if_neg (Ne.symm hlc)]
      exact hfree
    refine ⟨⟨hall, ⟨fun e he => ?_, hnodup, ?_, ?_⟩, .inr ⟨cs, rfl⟩, rfl, hfreeMem⟩, ?_⟩
    · refine hall.hasCluster.mpr ?_
      obtain he | he := mem_append.mp he
      · exact h.inside e he
      · exact (hfreeMem e he).1
    · have hlinked := h.linked
      have hnd := h.nodup
      rw [hcs] at hlinked hnd ⊢
      refine hlinked.snoc ?_ ?_ fun e he => ?_
      · rw [hent _ hlin, if_neg hlc, if_pos rfl]
      · rw [hent c hc, if_pos rfl]
        exact (extend_last _).1
      · have hecs : e ∈ cs := by
          rw [hcs]
          exact mem_append.mpr (.inl he)
        have hec : e ≠ c := by
          rintro rfl
          exact hout hecs
        have hel : e ≠ o.fileLastCluster := (nodup_append.mp hnd).2.2 e he _ mem_cons_self
        rw [hent e (h.inside e hecs), if_neg hec, if_neg hel]
    · have hfst := h.first
      rw [hfst]
      cases cs with
      | nil => exact absurd hlmem not_mem_nil
      | cons a l => rfl
    · have hsame := (@length_freeClusters_set v o.fileLastCluster c hlin).2.2 (by
        rw [hlink]
        exact ⟨fun hz => absurd hz hlnonfree, fun hz => absurd hz hcne⟩)
      have hone := (@length_freeClusters_set (setFatEntry v o.fileLastCluster c) c clusterLast hc').1 hfree'
        (extend_last _).2
      omega

end Link

theorem SameFat.linked (h : SameFat v v') (hl : Linked v cs) : Linked v' cs := hl.congr fun c _ => h.entry c

theorem SameFat.chain (h : SameFat v v') (hc : ChainOk v o cs) : ChainOk v' o cs := by
  refine ⟨fun c hin => ?_, hc.nodup, h.linked hc.linked, hc.first⟩
  unfold Volume.HasCluster
  rw [h.maxCluster]
  exact hc.inside c hin

theorem grown_growLoop : ∀ (count : Nat) (cs : List Nat) (v : Volume) (o : OFile), v.Fits →
    minCluster ≤ v.nextCluster → ChainOk v o cs → LastIs cs o.fileLastCluster →
    ∃ added, Grown v o cs added (growLoop count o.fileLastCluster v o).2.1
        (growLoop count o.fileLastCluster v o).2.2 ∧
      ((growLoop count o.fileLastCluster v o).1 = .success ∧ added.length = count ∨
        (growLoop count o.fileLastCluster v o).1 = .volumeFull ∧ added.length < count ∧
          (v.InfoOk → (freeClusters v).length = added.length)) := by
  intro count
  induction count with
  | zero =>
    intro cs v o _ _ hch hlast
    refine ⟨[], ⟨Kept.refl _ v, ?_, ?_, rfl, fun c hc => absurd hc not_mem_nil⟩, .inl ⟨rfl, rfl⟩⟩
    · rw [append_nil]
      exact hch
    · rw [append_nil]
      exact hlast
  | succ count ih =>
    intro cs v o hfits hmin hch hlast
    obtain ⟨hsame,hkeptAll,hres⟩ := allocates_allocateCluster hfits hmin
    have hkept := hkeptAll []
    have hfits' := hkept.fits hfits
    have hchain' := hsame.chain hch
    unfold growLoop
    obtain ⟨hc,hfree⟩ | ⟨hnone,hempty⟩ := hres
    · obtain ⟨hend,-,-⟩ := not_end_of_cluster hfits hc
      rw [if_neg (by rw [hend]; exact Bool.false_ne_true),
        if_neg (fun h => h.elim (fun hlt => absurd hc.1 (not_le.mpr hlt))
          fun hgt => absurd hc.2 (not_le.mpr hgt))]
      have hfree' : getFatEntry (allocateCluster v).2 (allocateCluster v).1 = clusterFree := by
        rw [hsame.entry]
        exact hfree
      obtain ⟨hgrown,hcnt⟩ := grown_link hfits' hchain' hlast (hkept.hasCluster.mpr hc) hfree'
      have hstep : Kept (cs ++ [(allocateCluster v).1]) v
          (linkCluster (allocateCluster v).2 o.fileLastCluster (allocateCluster v).1) :=
        (hkeptAll _).trans hgrown.kept
      have hlastFile : (linkFile o o.fileLastCluster (allocateCluster v).1).fileLastCluster =
          (allocateCluster v).1 := by
        unfold linkFile
        split <;> rfl
      obtain ⟨added,hmore,houtcome⟩ := ih (cs ++ [(allocateCluster v).1]) _ _ (hstep.fits hfits)
        (hstep.next hmin) hgrown.chain hgrown.last
      rw [hlastFile] at hmore houtcome
      have hassoc : cs ++ [(allocateCluster v).1] ++ added = cs ++ ((allocateCluster v).1 :: added) := by
        rw [append_assoc]
        rfl
      refine ⟨(allocateCluster v).1 :: added, ⟨?_, ?_, ?_, ?_, fun e he => ?_⟩, ?_⟩
      · rw [← hassoc]
        exact (hstep.mono fun e he => mem_append.mpr (.inl he)).trans hmore.kept
      · rw [← hassoc]
        exact hmore.chain
      · rw [← hassoc]
        exact hmore.last
      · exact hmore.size.trans hgrown.size
      · obtain rfl | he := mem_cons.mp he
        · exact ⟨hc, hfree⟩
        obtain ⟨hin,hz⟩ := hmore.free e he
        have hein := hstep.hasCluster.mp hin
        have hout : e ∉ cs ++ [(allocateCluster v).1] := fun hmem =>
          (nodup_append.mp hmore.chain.nodup).2.2 e hmem e he rfl
        rw [hstep.entry e hein hout] at hz
        exact ⟨hein, hz⟩
      · obtain ⟨hok,hlen⟩ | ⟨hfull,hlen,hinfo⟩ := houtcome
        · exact .inl ⟨hok, by rw [length_cons, hlen]⟩
        refine .inr ⟨hfull, by rw [length_cons]; omega, fun hi => ?_⟩
        have hrest := hinfo (hstep.info hi)
        rw [hsame.freeClusters] at hcnt
        rw [length_cons, hcnt, hrest]
    · have hend : endOfFatChain (allocateCluster v).1 = true := by
        rw [hnone]
        decide
      rw [if_pos hend]
      have hzero (hi : v.InfoOk) : (freeClusters v).length = ([] : List Nat).length := by rw [hempty hi]
      split
      · next hne =>
        obtain ⟨-,hz⟩ | ⟨front,hcs⟩ := hlast
        · exact absurd hz hne
        have hlmem : o.fileLastCluster ∈ cs := by
          rw [hcs]
          exact mem_append.mpr (.inr mem_cons_self)
        have hlin := hchain'.inside _ hlmem
        have hset := @kept_setFatEntry (allocateCluster v).2 o.fileLastCluster clusterLast (cs ++ []) hfits' hlin
          (mem_append.mpr (.inl hlmem)) (plain_last _)
        refine ⟨[], ⟨(hkeptAll _).trans hset, ?_, ?_, rfl, fun c hc => absurd hc not_mem_nil⟩,
          .inr ⟨rfl, Nat.succ_pos _, hzero⟩⟩
        · rw [append_nil]
          refine ⟨fun e he => hset.hasCluster.mpr (hchain'.inside e he), hchain'.nodup, ?_, hchain'.first⟩
          have hlink := hchain'.linked
          have hnd := hchain'.nodup
          rw [hcs] at hlink hnd ⊢
          refine hlink.cut ?_ fun e he => ?_
          · rw [getFatEntry_setFatEntry hlin hlin, if_pos rfl]
            exact (extend_last _).1
          · have hecs : e ∈ cs := by
              rw [hcs]
              exact mem_append.mpr (.inl he)
            rw [getFatEntry_setFatEntry hlin (hchain'.inside e hecs), if_neg]
            exact (nodup_append.mp hnd).2.2 e he _ mem_cons_self
        · rw [append_nil]
          exact .inr ⟨front, hcs⟩
      · refine ⟨[], ⟨hkeptAll _, ?_, ?_, rfl, fun c hc => absurd hc not_mem_nil⟩,
          .inr ⟨rfl, Nat.succ_pos _, hzero⟩⟩
        · rw [append_nil]
          exact hchain'
        · rw [append_nil]
          exact hlast

end Liano.Fat.Space
