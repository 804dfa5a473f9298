import Liano.OrderedCollection.Unlink

/-! The second half of `OrderedCollectionDelete`: the loop moves the missing black up until a red
node can take it or the root drops it, and no `ASSERT` in it fails. -/
namespace Liano.OrderedCollection

open Option (bind_eq_bind bind_some)
open List hiding nil

open RedBlack (Side Color RbTree Context)
open RedBlack.RbTree (nil node branch)
open RedBlack.Context (top step)

variable {V K : Type}

/-- The subtree `t` at `Child` is one black short; `Parent` is not kept up to date once the loop
has set `Child` to the root. -/
structure DeleteInv (l : DeleteLoop V) (k : Context (Nat × V)) (t : RbTree (Nat × V)) : Prop where
  represents : Represents l.nodes l.newRoot (k.plug t)
  child : l.child = ptr t
  parent : k ≠ top → l.parent = parentPtr k
  balanced : ∃ n, t.ValidBelow n ∧ k.Fits (n+1)

variable {t : RbTree (Nat × V)}
variable {n : Nat} {s : Side} {c : Color} {p : Nat × V} {k : Context (Nat × V)}

theorem exists_branch_of_valid (h : t.Valid (n+1)) (s : Side) : ∃ c a x b, t = branch s c a x b := by
  cases t with
  | nil => cases h
  | node c l x r =>
    obtain ⟨a,b,he⟩ := RedBlack.RbTree.exists_branch s c l x r
    exact ⟨c, a, x, b, he⟩

theorem exists_branch_of_red (h : t.color = .red) (s : Side) : ∃ a x b, t = branch s .red a x b := by
  cases t with
  | nil => cases h
  | node c l x r =>
    cases h
    obtain ⟨a,b,he⟩ := RedBlack.RbTree.exists_branch s .red l x r
    exact ⟨a, x, b, he⟩

variable {l : DeleteLoop V} {up : Context (Nat × V)}

/-- After this step `Child` has a black sibling; if it had a red one, its parent is now red. -/
theorem deleteRedSibling_spec {o : RbTree (Nat × V)} {sib : Nat}
    (hr : Represents l.nodes l.newRoot ((step s c p o up).plug t)) (ho : ptr o = some sib)
    (hfit : (step s c p o up).Fits (n+1)) : ∃ l' c' q a b up', deleteRedSibling s l p.1 sib = some (l',q.1) ∧
      Represents l'.nodes l'.newRoot ((step s c' p (branch s .black a q b) up').plug t) ∧
      (step s c' p (branch s .black a q b) up').Fits (n+1) ∧ l'.child = l.child ∧
      l'.parent = l.parent ∧ (c' = .red ∨ up'.depth ≤ up.depth) ∧
      ((step s c' p (branch s .black a q b) up').plug t).toList = ((step s c p o up).plug t).toList := by
  obtain ⟨hov,hup,hred⟩ := hfit
  obtain ⟨d,a,q,b,rfl⟩ := exists_branch_of_valid hov s
  rw [ptr_branch] at ho
  cases ho
  rw [← RedBlack.Context.plug_other] at hr
  have hread := hr.read
  cases d with
  | black =>
    rw [RedBlack.Context.plug_other] at hr
    refine ⟨l, c, q, a, b, up, ?_, hr, ⟨hov, hup, hred⟩, rfl, rfl, .inr le_rfl, rfl⟩
    simp only [deleteRedSibling, hread, bind_eq_bind, bind_some, sided_color, reduceCtorEq, if_false]
    rfl
  | red =>
    obtain ⟨ha,hb,hac,hbc⟩ := RbTree.valid_red.mp hov
    have hc : c = .black := by
      cases c with
      | red => exact absurd (hred rfl).1 (by simp)
      | black => rfl
    subst hc
    obtain ⟨h1,e1,r1⟩ := hr.setColor .black
    obtain ⟨h2,e2,r2⟩ := Represents.setColor (k := up) r1 .red
    rw [← RbTree.branch_other s .black] at r2
    obtain ⟨h3,root3,e3,r3⟩ := redBlackTreeRotate_spec r2
    rw [RbTree.branch_other, RbTree.branch_other] at r3
    obtain ⟨d,a1,q',a2,rfl⟩ := exists_branch_of_valid ha s
    have hd : d = .black := by rw [← hac, RbTree.color_branch]
    subst hd
    have hread3 := Represents.read (k := step s .black q b up) r3
    refine ⟨⟨h3, root3, l.child, l.parent⟩, .red, q', a1, a2, step s .black q b up, ?_, r3,
      RedBlack.Context.fits_red.mpr ⟨ha, RedBlack.Context.fits_black.mpr ⟨hb, hup⟩, hac, rfl⟩,
      rfl, rfl, .inl rfl, ?_⟩
    · simp only [deleteRedSibling, hread, bind_eq_bind, bind_some, sided_color,
        if_true, e1, e2, e3, hread3, sided_far, ptr_branch]
      rfl
    · exact RedBlack.Context.toList_plug_congr up (RbTree.toList_rotate ..)

theorem deleteNearNephew_spec {q : Nat × V} {a b : RbTree (Nat × V)}
    (hr : Represents l.nodes l.newRoot ((step s c p (branch s .black a q b) up).plug t))
    (ha : a.Valid n) (hb : b.Valid n) (hne : ¬ (a.color = .black ∧ b.color = .black)) :
    ∃ l' a' x f1 y f2, deleteNearNephew s l p.1 q.1 = some (l', some x.1, some y.1) ∧
      Represents l'.nodes l'.newRoot
        ((step s c p (branch s .black a' x (branch s .red f1 y f2)) up).plug t) ∧
      a'.Valid n ∧ (branch s .red f1 y f2).Valid n ∧
      (branch s .black a' x (branch s .red f1 y f2)).toList = (branch s .black a q b).toList := by
  rw [← RedBlack.Context.plug_other] at hr
  have hread := hr.read
  have hfar := Represents.nodeIsNullOrBlack (k := step s.other .black q a (step s.other c p t up))
    (t := b) (by rw [RedBlack.Context.plug_other]; exact hr)
  cases hbc : b.color with
  | red =>
    obtain ⟨f1,y,f2,rfl⟩ := exists_branch_of_red hbc s
    rw [RedBlack.Context.plug_other] at hr
    refine ⟨l, a, q, f1, y, f2, ?_, hr, ha, hb, rfl⟩
    rw [hbc, ptr_branch] at hfar
    simp only [deleteNearNephew, hread, bind_eq_bind, bind_some, sided_far, hfar,
      ptr_branch, reduceCtorEq, decide_false, Bool.false_eq_true, if_false]
    rfl
  | black =>
    have hac : a.color = .red := by
      cases h : a.color with
      | red => rfl
      | black => exact absurd ⟨h, hbc⟩ hne
    obtain ⟨a1,x,a2,rfl⟩ := exists_branch_of_red hac s
    obtain ⟨ha1,ha2,_,ha2c⟩ := RbTree.valid_red.mp ha
    obtain ⟨h1,e1,r1⟩ := Represents.setColor (k := step s .black q b (step s.other c p t up))
      hr .black
    obtain ⟨h2,e2,r2⟩ := Represents.setColor (k := step s.other c p t up) r1 .red
    obtain ⟨h3,root3,e3,r3⟩ := redBlackTreeRotate_spec r2
    have hread3 := Represents.read (k := up) r3
    have hread4 := r3.read
    rw [RedBlack.Context.plug_other] at r3
    refine ⟨⟨h3, root3, l.child, l.parent⟩, a1, x, a2, q, b, ?_, r3, ha1,
      RbTree.valid_red.mpr ⟨ha2, hb, ha2c, hbc⟩, ?_⟩
    · rw [hbc] at hfar
      simp only [deleteNearNephew, hread, bind_eq_bind, bind_some, sided_far, hfar,
        decide_true, if_true, sided_near, ptr_branch, e1, e2, e3, hread3, hread4]
      rfl
    · exact (RbTree.toList_rotate ..).symm

theorem deleteFarNephew_spec {x y : Nat × V} {a f1 f2 : RbTree (Nat × V)} (hr : Represents l.nodes l.newRoot
      ((step s c p (branch s .black a x (branch s .red f1 y f2)) up).plug t))
    (ht : t.Valid n) (ha : a.Valid n) (hf : (branch s .red f1 y f2).Valid n)
    (hup : up.Fits (n+1+c.height)) (hred : c = .red → up.color = some .black) :
    ∃ l' t', deleteFarNephew s l p.1 (some x.1) (some y.1) = some l' ∧ DeleteInv l' top t' ∧
      t'.toList = ((step s c p (branch s .black a x (branch s .red f1 y f2)) up).plug t).toList := by
  have hread1 := Represents.read (k := up) hr
  rw [← RedBlack.Context.plug_other] at hr
  have hread2 := hr.read
  have hread3 := Represents.read (k := step s.other .black x a (step s.other c p t up)) (s := s)
    (c := .red) (t := f1) (x := y) (u := f2) (by rw [RedBlack.Context.plug_other]; exact hr)
  obtain ⟨h1,e1,r1⟩ := hr.setColor c
  obtain ⟨h2,e2,r2⟩ := Represents.setColor (k := up) r1 .black
  have r2' : Represents h2 l.newRoot
      ((step s.other c x a (step s.other .black p t up)).plug (branch s .red f1 y f2)) := by
    rw [RedBlack.Context.plug_other]
    exact r2
  obtain ⟨h3,e3,r3⟩ := r2'.setColor .black
  obtain ⟨h4,root4,e4,r4⟩ := redBlackTreeRotate_spec r3
  rw [RbTree.branch_other, RbTree.branch_other] at r4
  obtain ⟨hf1,hf2,_⟩ := RbTree.valid_red.mp hf
  have hv : (branch s c (branch s .black t p a) x (branch s .black f1 y f2)).Valid
      (n+1+c.height) := RbTree.valid_branch.mpr ⟨n+1, rfl, RbTree.valid_black.mpr ⟨ht, ha⟩,
      RbTree.valid_black.mpr ⟨hf1, hf2⟩, fun _ => ⟨RbTree.color_branch .., RbTree.color_branch ..⟩⟩
  have hcol : up.color ≠ some .black → c = .black := by
    intro h
    cases c with
    | red => exact absurd (hred rfl) h
    | black => rfl
  obtain ⟨hblack,m,hm⟩ := RedBlack.Context.isRedBlack_plug hup hv
    fun h => (RbTree.color_branch ..).trans (hcol h)
  refine ⟨⟨h4, root4, root4, l.parent⟩, _, ?_,
    ⟨r4, r4.root, fun h => absurd rfl h, m, .inl ⟨hblack, hm⟩, trivial⟩, ?_⟩
  · simp only [deleteFarNephew, hread1, hread2, hread3, bind_eq_bind, bind_some,
      sided_color, and_self, if_true, e1, e2, e3, e4]
    rfl
  · refine RedBlack.Context.toList_plug_congr up ?_
    rw [RbTree.toList_rotate s c .black c .black]
    refine (RbTree.toList_branch_color _ _ c _ _ _).trans (RbTree.toList_branch_congr _ _ _ rfl ?_)
    exact (RbTree.toList_branch_color _ _ .black _ _ _).trans
      (RbTree.toList_branch_congr _ _ _ rfl (RbTree.toList_branch_color ..))

theorem deleteBody_spec {o : RbTree (Nat × V)} (hi : DeleteInv l (step s c p o up) t)
    (ht : t.color = .black) : ∃ l' k' t', deleteBody s l p.1 = some l' ∧ DeleteInv l' k' t' ∧
      (t'.color = .red ∨ k'.depth ≤ up.depth) ∧ (k'.plug t').toList = ((step s c p o up).plug t).toList := by
  obtain ⟨n,hbelow,hfit⟩ := hi.balanced
  have htv : t.Valid n := by
    rcases hbelow with ⟨_,hv⟩ | ⟨hred,_⟩
    · exact hv
    · rw [ht] at hred
      cases hred
  obtain ⟨d,o1,q0,o2,rfl⟩ := exists_branch_of_valid hfit.1 s
  have hread := Represents.read (k := up) hi.represents
  obtain ⟨l1,c1,q,a,b,up1,e1,r1,hfit1,hchild,hparent,hdepth,hl1⟩ :=
    deleteRedSibling_spec hi.represents (ptr_branch ..) hfit
  obtain ⟨hov,hup1,hred1⟩ := hfit1
  obtain ⟨ha,hb⟩ := RbTree.valid_black.mp hov
  have r1' : Represents l1.nodes l1.newRoot
      ((step s.other c1 p t up1).plug (branch s .black a q b)) := by
    rw [RedBlack.Context.plug_other]
    exact r1
  have hread1 := r1'.read
  have hnear := Represents.nodeIsNullOrBlack (k := step s .black q b (step s.other c1 p t up1))
    (t := a) r1'
  have hfar := Represents.nodeIsNullOrBlack
    (k := step s.other .black q a (step s.other c1 p t up1)) (t := b)
    (by rw [RedBlack.Context.plug_other]; exact r1')
  by_cases hnephews : a.color = .black ∧ b.color = .black
  · obtain ⟨hac,hbc⟩ := hnephews
    obtain ⟨h2,e2,r2⟩ := r1'.setColor .red
    rw [RedBlack.Context.plug_other] at r2
    have hread2 := Represents.read (k := up1) r2
    have hsib : (branch s .red a q b).Valid n := RbTree.valid_red.mpr ⟨ha, hb, hac, hbc⟩
    refine ⟨⟨h2, l1.newRoot, some p.1, parentPtr up1⟩, up1, branch s c1 t p (branch s .red a q b),
      ?_, ⟨r2, (ptr_branch ..).symm, fun _ => rfl, n+c1.height, ?_, ?_⟩, ?_, ?_⟩
    · simp only [deleteBody, hread, bind_eq_bind, bind_some, sided_far, ptr_branch,
        e1, hread1, sided_color, if_true, sided_near, hnear, hfar, hac, hbc, decide_true, and_self,
        e2, hread2, sided_parent]
      rfl
    · cases c1 with
      | red =>
        refine .inr ⟨RbTree.color_branch .., ?_⟩
        rw [RbTree.blacken_branch]
        exact RbTree.valid_black.mpr ⟨htv, hsib⟩
      | black => exact .inl ⟨RbTree.color_branch .., RbTree.valid_black.mpr ⟨htv, hsib⟩⟩
    · rw [add_right_comm]
      exact hup1
    · rw [RbTree.color_branch]
      exact hdepth
    · exact (RedBlack.Context.toList_plug_congr up1 (RbTree.toList_branch_congr _ _ _ rfl
        (RbTree.toList_branch_color ..))).trans hl1
  · obtain ⟨l2,a',x,f1,y,f2,e2,r2,ha',hf,hl2⟩ := deleteNearNephew_spec r1 ha hb hnephews
    obtain ⟨l3,t',e3,hi3,hl3⟩ := deleteFarNephew_spec r2 htv ha' hf hup1
      fun h => (hred1 h).2
    refine ⟨l3, top, t', ?_, hi3, .inr (Nat.zero_le _), hl3.trans (.trans ?_ hl1)⟩
    · simp only [deleteBody, hread, bind_eq_bind, bind_some, sided_far, ptr_branch,
        e1, hread1, sided_color, if_true, sided_near, hnear, hfar, decide_eq_true_eq, if_neg hnephews, e2, e3]
    · exact RedBlack.Context.toList_plug_congr up1 (RbTree.toList_branch_congr _ _ _ rfl hl2)

theorem deleteLoop_spec {fuel : Nat} (hi : DeleteInv l k t)
    (hf : t.color = .red ∧ 0 < fuel ∨ k.depth < fuel) :
    ∃ l' k' t', deleteLoop fuel l = some l' ∧ DeleteInv l' k' t' ∧
      (k' = top ∨ t'.color = .red) ∧ (k'.plug t').toList = (k.plug t).toList := by
  induction fuel generalizing l k t with
  | zero => omega
  | succ fuel ih =>
    have hroot := hi.represents.root_eq_iff
    rw [← hi.child] at hroot
    cases k with
    | top => exact ⟨l, top, t, if_pos (hroot.mpr rfl), hi, .inl rfl, rfl⟩
    | step s c p o up =>
      have hne : l.child ≠ l.newRoot := fun h => nomatch hroot.mp h
      have hblack := hi.represents.nodeIsNullOrBlack
      rw [← hi.child] at hblack
      cases ht : t.color with
      | red =>
        refine ⟨l, _, t, ?_, hi, .inr ht, rfl⟩
        rw [ht] at hblack
        simp only [deleteLoop, if_neg hne, hblack, bind_eq_bind, bind_some,
          reduceCtorEq, decide_false, Bool.false_eq_true, if_false]
        rfl
      | black =>
        have hdepth : up.depth+1 < fuel+1 := by
          rcases hf with ⟨hred,_⟩ | hd
          · rw [ht] at hred
            cases hred
          · exact hd
        obtain ⟨n,_,hov,_⟩ := hi.balanced
        have ho : o ≠ nil := fun h => by rw [h] at hov; cases hov
        have hread := Represents.read (k := up) hi.represents
        have hside := side_of_left s p.2 (parentPtr up) _ _ c
          (Represents.ptr_ne (k := up) hi.represents (.inr ho))
        rw [← hi.child] at hside hread
        obtain ⟨l1,k1,t1,e1,hi1,hd,hl1⟩ := deleteBody_spec hi ht
        obtain ⟨l2,k2,t2,e2,hi2,hend,hl2⟩ := ih hi1 (hd.imp (fun h => ⟨h, by omega⟩) fun h => by omega)
        refine ⟨l2, k2, t2, ?_, hi2, hend, hl2.trans hl1⟩
        rw [ht] at hblack
        simp only [deleteLoop, if_neg hne, hblack, bind_eq_bind, bind_some,
          decide_true, if_true, hi.parent nofun, parentPtr_step, hread, hside, e1, e2]

theorem DeleteInv.blacken (hi : DeleteInv l k t) (hend : k = top ∨ t.color = .red) :
    (k.plug t.blacken).IsRedBlack := by
  obtain ⟨n,hbelow,hfit⟩ := hi.balanced
  rcases hbelow with ⟨hblack,hv⟩ | ⟨_,hv⟩
  · rcases hend with rfl | hred
    · exact ⟨RbTree.color_blacken _, n, (RbTree.blacken_eq_self hblack).symm ▸ hv⟩
    · rw [hblack] at hred
      cases hred
  · exact RedBlack.Context.isRedBlack_plug hfit hv fun _ => RbTree.color_blacken _

theorem deleteRebalance_spec {u : Unlinked V} {h : Nodes V}
    {x : RbTree (Nat × V)} {a : Nat} (hu : Unlinks u a k x) (hr : Represents h u.newRoot (k.plug x)) :
    ∃ h' root t, deleteRebalance { u with nodes := h } = some (h',root) ∧
      Represents h' root t ∧ t.IsRedBlack ∧ t.toList = (k.plug x).toList := by
  obtain ⟨m,hx,hk,hred,hcol⟩ := hu.balanced
  cases hc : u.colorOfUnlinked with
  | red =>
    refine ⟨h, u.newRoot, k.plug x, ?_, hr, ?_, rfl⟩
    · simp only [deleteRebalance, reduceCtorEq, if_false]
    · rw [hc] at hk
      exact RedBlack.Context.isRedBlack_plug hk hx fun _ => hred hc
  | black =>
    rw [hc] at hk
    have hi : DeleteInv ⟨h, u.newRoot, u.child, u.parent⟩ k x := by
      refine ⟨hr, hu.child, fun _ => hu.parent, ?_⟩
      cases hxc : x.color with
      | black => exact ⟨m, .inl ⟨hxc, hx⟩, hk⟩
      | red => exact ⟨m, .inr ⟨hxc, hx.blacken_red hxc⟩, hk⟩
    have hfuel : k.depth < fuel h := by
      have hd := RedBlack.Context.depth_le_size k x
      rw [hr.fuel_eq]
      omega
    obtain ⟨l,k',t,e1,hi',hend,hl⟩ := deleteLoop_spec hi (.inr hfuel)
    have hrb := hi'.blacken hend
    have hchild := hi'.child
    have hr' := hi'.represents
    cases t with
    | nil =>
      refine ⟨l.nodes, l.newRoot, k'.plug nil, ?_, hr', hrb, hl⟩
      simp only [deleteRebalance, if_true, e1, bind_eq_bind, bind_some, hchild]
      rfl
    | node c tl y tr =>
      obtain ⟨h',e2,r2⟩ := Represents.setColor (s := .left) hr' .black
      refine ⟨h', l.newRoot, _, ?_, r2, hrb, ?_⟩
      · simp only [deleteRebalance, if_true, e1, bind_eq_bind, bind_some, hchild, ptr, e2]
        rfl
      · exact (RedBlack.Context.toList_plug_congr k' (RbTree.toList_branch_color .left ..)).trans hl

/-- The node is gone, its user structure is handed out, and everything else stays in order. -/
theorem orderedCollectionDelete_spec {tree : RedBlackTree V K}
    (ht : Holds tree t) {x : Nat × V} (hx : x ∈ t.toList) :
    ∃ root nodes t', orderedCollectionDelete tree x.1 = some ({ tree with root, nodes }, x.2) ∧
      Holds { tree with root, nodes } t' ∧ t.toList.Perm (x :: t'.toList) := by
  obtain ⟨k,c,l,r,rfl⟩ := RedBlack.Context.exists_plug_of_mem hx
  have hread := Represents.read (s := .left) ht.represents
  obtain ⟨u,k',y,e1,hu,hl⟩ := unlink_spec ht.represents ht.isRedBlack
  obtain ⟨n,hb⟩ := hu.bag
  obtain ⟨h1,e2,b2⟩ := Heap.free_of_bag hb
  have hr1 : Represents h1 u.newRoot (k'.plug y) := represents_plug.mpr ⟨b2, hu.newRoot⟩
  obtain ⟨h2,root,t',e3,hr2,hrb,hl2⟩ := deleteRebalance_spec hu hr1
  have hlist : t'.toList = k.before ++ (l.toList ++ r.toList) ++ k.after := hl2.trans hl
  have hold : (k.plug (node c l x r)).toList =
      k.before ++ (l.toList ++ x :: r.toList) ++ k.after := RedBlack.Context.toList_plug ..
  refine ⟨root, h2, t', ?_, ⟨hr2, hrb, ?_⟩, ?_⟩
  · simp only [orderedCollectionDelete, hread, sided, bind_eq_bind, bind_some, e1, e2, e3]
    rfl
  · have hs := ht.sorted
    rw [Sorted, hold] at hs
    rw [Sorted, hlist]
    refine hs.sublist ?_
    exact ((List.Sublist.refl _).append ((List.Sublist.refl _).append
      (sublist_cons_self ..))).append (List.Sublist.refl _)
  · rw [hold, hlist]
    simp only [append_assoc, cons_append]
    rw [← append_assoc, ← append_assoc k.before]
    exact perm_middle

end Liano.OrderedCollection
