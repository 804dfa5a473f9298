import Liano.Dispatcher.DriverEntry
import Mathlib.Logic.Relation

/-! A call of CoreInsertOnScheduledQueueWhileProcessingBeforeAndAfter. Where no driver comes back to itself
over a BEFORE it returns, and has put dependent drivers on the queue, each of them once, in the order that
their expressions ask for. -/
namespace Liano.Dispatcher

open List hiding insert

variable {s t : State} {i j k : Nat} {q : DriverEntry → Bool} {relation : Relation} {fuel : Nat}
  {block : List Nat}

@[simp] theorem has_change (f : DriverEntry → DriverEntry) :
    (s.change i f).has j q = if i = j then s.has j (fun d => q (f d)) else s.has j q := by
  unfold State.has State.change
  rw [getElem?_modify]
  by_cases h : i = j
  · simp only [if_pos h]
    cases s.discoveredList[j]? <;> rfl
  · simp only [if_neg h]
    cases s.discoveredList[j]? <;> rfl

theorem has_link : (s.link i).has j q = if i = j then s.has j (fun d => q d.schedule) else s.has j q :=
  has_change DriverEntry.schedule

theorem has_link_of_eq (h : ∀ d : DriverEntry, q d.schedule = q d) : (s.link i).has j q = s.has j q := by
  rw [has_link]
  split
  · exact congrArg _ (funext h)
  · rfl

@[simp] theorem related_link (m : Nat) : (s.link m).related relation i j = s.related relation i j := by
  unfold State.related
  rw [has_link_of_eq]
  · congr 2
    funext di
    refine has_link_of_eq fun d => ?_
    rfl
  · exact fun d => rfl

def linkAll (block : List Nat) (s : State) : State := block.foldl State.link s

theorem linkAll_append (block more : List Nat) (s : State) :
    linkAll (block ++ more) s = linkAll more (linkAll block s) := foldl_append

theorem related_linkAll : (linkAll block s).related relation i j = s.related relation i j := by
  induction block generalizing s with
  | nil => rfl
  | cons m block ih => exact ih.trans (related_link m)

theorem has_dependent_linkAll :
    (linkAll block s).has j (·.dependent) = true ↔ s.has j (·.dependent) = true ∧ j ∉ block := by
  induction block generalizing s with
  | nil => simp [linkAll]
  | cons m block ih =>
    have hlink : (s.link m).has j (·.dependent) = true ↔ s.has j (·.dependent) = true ∧ j ≠ m := by
      rw [has_link]
      by_cases h : m = j
      · rw [if_pos h]
        have hnone : s.has j (fun d => d.schedule.dependent) = false := by
          unfold State.has DriverEntry.schedule
          cases s.discoveredList[j]? <;> rfl
        rw [hnone]
        exact ⟨nofun, fun h' => absurd h.symm h'.2⟩
      · rw [if_neg h]
        exact ⟨fun h' => ⟨h', fun heq => h heq.symm⟩, fun h' => h'.1⟩
    show (linkAll block (s.link m)).has j _ = true ↔ _
    rw [ih, hlink, mem_cons, not_or, and_assoc]

theorem inserted_linkAll : (linkAll block s).inserted = s.inserted ++ block := by
  induction block generalizing s with
  | nil => exact (append_nil _).symm
  | cons m block ih =>
    show (linkAll block (s.link m)).inserted = _
    rw [ih]
    exact append_assoc _ [m] block

theorem linkAll_pulls (pulls : List Pull) :
    linkAll block { s with pulls := pulls } = { linkAll block s with pulls := pulls } := by
  induction block generalizing s with
  | nil => rfl
  | cons m block ih => exact @ih (s.link m)

def Pulls (s : State) (i j : Nat) : Prop :=
  ∃ relation, s.related relation i j = true ∧ s.has j (·.dependent) = true

def Reach (s : State) : Nat → Nat → Prop := Relation.ReflTransGen (Pulls s)

/-- No driver among those that the one at i brings along comes back to itself over a BEFORE. -/
def NoReturn (s : State) (i : Nat) : Prop :=
  ∀ j k, Reach s i j → s.related .before j k = true → s.has k (·.dependent) = true → ¬ Reach s k j

structure Later (s t : State) : Prop where
  related : ∀ relation i j, t.related relation i j = s.related relation i j
  dependent : ∀ j, t.has j (·.dependent) = true → s.has j (·.dependent) = true

theorem Reach.later (hlater : Later s t) (h : Reach t i j) : Reach s i j := by
  induction h with
  | refl => exact .refl
  | tail _ hpull ih =>
    obtain ⟨relation,hrel,hdep⟩ := hpull
    exact ih.tail ⟨relation, (hlater.related _ _ _).symm.trans hrel, hlater.dependent _ hdep⟩

theorem NoReturn.later (hlater : Later s t) (hreach : Reach s i j) (h : NoReturn s i) : NoReturn t j := by
  intro k m hk hbefore hdependent hback
  exact h k m (hreach.trans (hk.later hlater)) ((hlater.related _ _ _).symm.trans hbefore)
    (hlater.dependent m hdependent) (hback.later hlater)

def Pull.Ordered (pull : Pull) (l : List Nat) : Prop := match pull.relation with
  | .before => [pull.driver, pull.inserted].Sublist l
  | .after => [pull.inserted, pull.driver].Sublist l

theorem Pull.Ordered.mono {pull : Pull} {l m : List Nat} (h : pull.Ordered l) (hsub : l.Sublist m) :
    pull.Ordered m := by
  unfold Pull.Ordered at h ⊢
  split at h
  · exact h.trans hsub
  · exact h.trans hsub

/-- Some waiting drivers that the one at i brings along have been put on the queue; the order that is asked
for is the one in which they have been, with those of the tail to follow. -/
structure Brings (s : State) (i : Nat) (tail : List Nat) (block : List Nat) (t : State) : Prop where
  linked : ∃ more, t = { linkAll block s with pulls := s.pulls ++ more } ∧
    ∀ pull ∈ more, pull.Ordered (block ++ tail)
  nodup : block.Nodup
  dependent : ∀ j ∈ block, s.has j (·.dependent) = true
  reach : ∀ j ∈ block, Reach s i j

theorem Brings.later {tail : List Nat} (h : Brings s i tail block t) : Later s t := by
  obtain ⟨more,rfl,-⟩ := h.linked
  refine ⟨fun relation i j => ?_, fun j hj => ?_⟩
  · exact related_linkAll
  · exact (has_dependent_linkAll.mp hj).1

theorem Brings.dependent_iff {tail : List Nat} (h : Brings s i tail block t) :
    t.has j (·.dependent) = true ↔ s.has j (·.dependent) = true ∧ j ∉ block := by
  obtain ⟨more,rfl,-⟩ := h.linked
  exact has_dependent_linkAll

theorem Brings.refl (s : State) (i : Nat) (tail : List Nat) : Brings s i tail [] s :=
  ⟨⟨[], by rw [append_nil]; rfl, nofun⟩, nodup_nil, nofun, nofun⟩

theorem Brings.append {tail block' : List Nat} {t' : State} (h : Brings s i tail block t)
    (hpull : t.related relation i j = true) (hdependent : t.has j (·.dependent) = true)
    (h' : Brings (t.note ⟨relation, i, j⟩) j [] block' t')
    (hordered : Pull.Ordered ⟨relation, i, j⟩ (block ++ block' ++ tail)) :
    Brings s i tail (block ++ block') t' := by
  have hlater := h.later
  have hnote : Later t (t.note ⟨relation, i, j⟩) := ⟨fun _ _ _ => rfl, fun _ hd => hd⟩
  have hij : Pulls s i j := ⟨relation, (hlater.related _ _ _).symm.trans hpull, hlater.dependent j hdependent⟩
  obtain ⟨more,rfl,hmore⟩ := h.linked
  obtain ⟨more',rfl,hmore'⟩ := h'.linked
  refine ⟨⟨more ++ [⟨relation, i, j⟩] ++ more', ?_, ?_⟩, ?_, ?_, ?_⟩
  · have hpulls : linkAll block' (({ linkAll block s with pulls := s.pulls ++ more } : State).note
        ⟨relation, i, j⟩) = { linkAll (block ++ block') s with
          pulls := s.pulls ++ more ++ [⟨relation, i, j⟩] } := by
      rw [linkAll_append]
      exact @linkAll_pulls (linkAll block s) block' _
    rw [hpulls]
    show ({ linkAll (block ++ block') s with
      pulls := s.pulls ++ more ++ [⟨relation, i, j⟩] ++ more' } : State) = _
    rw [append_assoc, append_assoc, append_assoc]
  · intro pull hpull'
    obtain hold | hnew := mem_append.mp hpull'
    · obtain hold | heq := mem_append.mp hold
      · refine (hmore pull hold).mono ?_
        exact (sublist_append_left block block').append (List.Sublist.refl tail)
      · rw [mem_singleton] at heq
        exact heq ▸ hordered
    · refine (hmore' pull hnew).mono ?_
      rw [append_nil]
      exact (sublist_append_right block block').trans (sublist_append_left _ _)
  · refine nodup_append.mpr ⟨h.nodup, h'.nodup, ?_⟩
    rintro a ha b hb rfl
    have hdep := h'.dependent a hb
    exact (h.dependent_iff.mp hdep).2 ha
  · intro m hm
    obtain hm | hm := mem_append.mp hm
    · exact h.dependent m hm
    · exact hlater.dependent m (h'.dependent m hm)
  · intro m hm
    obtain hm | hm := mem_append.mp hm
    · exact h.reach m hm
    · exact .head hij (Reach.later hlater ((h'.reach m hm).later hnote))

theorem eachDriver_brings {insert : Nat → State → Option State} {tail : List Nat} {I : List Nat → Prop}
    (hpull : ∀ block t j, Brings s i tail block t → I block → t.related relation i j = true →
      t.has j (·.dependent) = true → ∃ block' t', insert j (t.note ⟨relation, i, j⟩) = some t' ∧
        Brings (t.note ⟨relation, i, j⟩) j [] block' t' ∧ I (block ++ block') ∧
        Pull.Ordered ⟨relation, i, j⟩ (block ++ block' ++ tail))
    (js : List Nat) (h : Brings s i tail block t) (hI : I block) :
    ∃ block' t', eachDriver (pullDriver insert relation i) js t = some t' ∧
      Brings s i tail block' t' ∧ I block' := by
  induction js generalizing block t with
  | nil => exact ⟨block, t, rfl, h, hI⟩
  | cons j js ih =>
    by_cases hpulls : t.related relation i j = true ∧ t.has j (·.dependent) = true
    · obtain ⟨block',t',hins,h',hI',hordered⟩ := hpull block t j h hI hpulls.1 hpulls.2
      obtain ⟨block₂,t₂,heach,hbrings⟩ := ih (h.append hpulls.1 hpulls.2 h' hordered) hI'
      refine ⟨block₂, t₂, ?_, hbrings⟩
      unfold eachDriver pullDriver
      rw [if_pos hpulls, hins]
      exact heach
    obtain ⟨block₂,t₂,heach,hbrings⟩ := ih h hI
    refine ⟨block₂, t₂, ?_, hbrings⟩
    unfold eachDriver pullDriver
    rw [if_neg hpulls]
    exact heach

theorem Brings.link (h : Brings s i [i] block t) (hdep : s.has i (·.dependent) = true)
    (hnot : i ∉ block) : Brings s i [] (block ++ [i]) (t.link i) := by
  obtain ⟨more,rfl,hmore⟩ := h.linked
  refine ⟨⟨more, ?_, ?_⟩, ?_, ?_, ?_⟩
  · rw [linkAll_append]
    rfl
  · rw [append_nil]
    exact hmore
  · refine nodup_append.mpr ⟨h.nodup, pairwise_singleton _ i, ?_⟩
    rintro a ha b hb rfl
    rw [mem_singleton] at hb
    exact hnot (hb ▸ ha)
  · intro m hm
    obtain hm | hm := mem_append.mp hm
    · exact h.dependent m hm
    · rw [mem_singleton] at hm
      exact hm ▸ hdep
  · intro m hm
    obtain hm | hm := mem_append.mp hm
    · exact h.reach m hm
    · rw [mem_singleton] at hm
      exact hm ▸ .refl

/-- A call returns where no driver comes back to itself over a BEFORE: every driver that is pulled leaves
one less to be pulled behind it. -/
theorem coreInsert_brings (waiting : List Nat) (hfuel : waiting.length ≤ fuel)
    (hdependent : s.has i (·.dependent) = true)
    (hwaiting : ∀ j, s.has j (·.dependent) = true → Reach s i j → j ∈ waiting) (hreturn : NoReturn s i) :
    ∃ block t, coreInsert fuel i s = some t ∧ Brings s i [] block t ∧ i ∈ block := by
  induction fuel generalizing s i waiting with
  | zero =>
    have hmem := hwaiting i hdependent .refl
    rw [length_eq_zero_iff.mp (Nat.le_zero.mp hfuel)] at hmem
    exact absurd hmem not_mem_nil
  | succ fuel ih =>
    have hless : (waiting.filter (· ≠ i)).length ≤ fuel := by
      have hlt : (waiting.filter (· ≠ i)).length < waiting.length :=
        length_filter_lt_length_iff_exists.mpr ⟨i, hwaiting i hdependent .refl, by simp⟩
      omega
    -- a driver that cannot bring the one at i along
    have hcall : ∀ {relation t j}, Later s t → t.related relation i j = true →
        t.has j (·.dependent) = true → (∀ k, t.has k (·.dependent) = true → Reach t j k → k ≠ i) →
        ∃ block t', coreInsert fuel j (t.note ⟨relation, i, j⟩) = some t' ∧
          Brings (t.note ⟨relation, i, j⟩) j [] block t' ∧ j ∈ block := by
      intro relation t j hlater hrelated hdep hne
      have hnote : Later s (t.note ⟨relation, i, j⟩) := ⟨hlater.related, hlater.dependent⟩
      have hsame : Later t (t.note ⟨relation, i, j⟩) := ⟨fun _ _ _ => rfl, fun _ hd => hd⟩
      have hij : Reach s i j := .single
        ⟨relation, (hlater.related _ _ _).symm.trans hrelated, hlater.dependent j hdep⟩
      refine ih (waiting.filter (· ≠ i)) hless hdep ?_ (hreturn.later hnote hij)
      intro k hk hreach
      refine mem_filter.mpr ⟨?_, ?_⟩
      · exact hwaiting k (hnote.dependent k hk) (hij.trans (hreach.later hnote))
      · exact decide_eq_true (hne k hk (hreach.later hsame))
    have hbef : ∀ {t j}, Later s t → t.related .before i j = true →
        t.has j (·.dependent) = true → ¬ Reach t j i := by
      intro t j hlater hrelated hdep hback
      exact hreturn i j .refl ((hlater.related _ _ _).symm.trans hrelated)
        (hlater.dependent j hdep) (hback.later hlater)
    obtain ⟨block₁,t₁,heach₁,hbrings₁,hnot⟩ :=
      @eachDriver_brings s s i .before [] (coreInsert fuel) [i] (fun block => i ∉ block)
        (by
          intro block t j h hnot hrelated hdep
          obtain ⟨block',t',hins,h',hmem⟩ := hcall h.later hrelated hdep
            fun k hk hreach heq => hbef h.later hrelated hdep (heq ▸ hreach)
          refine ⟨block', t', hins, h', ?_, ?_⟩
          · intro hin
            obtain hin | hin := mem_append.mp hin
            · exact hnot hin
            · have hsame : Later t (t.note ⟨.before, i, j⟩) := ⟨fun _ _ _ => rfl, fun _ hd => hd⟩
              exact hbef h.later hrelated hdep ((h'.reach i hin).later hsame)
          · have hj : [j].Sublist (block ++ block') := singleton_sublist.mpr (mem_append_right _ hmem)
            exact hj.append (List.Sublist.refl [i]))
        (range s.discoveredList.length) (Brings.refl s i [i]) not_mem_nil
    obtain ⟨block₂,t₂,heach₂,hbrings₂,hmem⟩ :=
      @eachDriver_brings s (t₁.link i) i .after (block₁ ++ [i]) (coreInsert fuel) []
        (fun block => i ∈ block)
        (by
          intro block t j h hmem hrelated hdep
          obtain ⟨block',t',hins,h',hj⟩ := hcall h.later hrelated hdep
            fun k hk _ heq => (h.dependent_iff.mp hk).2 (heq ▸ hmem)
          refine ⟨block', t', hins, h', mem_append_left _ hmem, ?_⟩
          have hi : [i].Sublist block := singleton_sublist.mpr hmem
          have hordered := hi.append (singleton_sublist.mpr hj)
          rw [append_nil]
          exact hordered)
        (range t₁.discoveredList.length) (hbrings₁.link hdependent hnot)
        (mem_append_right _ (mem_singleton_self i))
    refine ⟨block₂, t₂, ?_, hbrings₂, hmem⟩
    rw [coreInsert, heach₁]
    exact heach₂

end Liano.Dispatcher
