import Mathlib.Data.List.Infix
/-!
# Filepath — lexical paths

Go's `filepath.Clean` and `filepath.Join` on Unix.  A path is a string of bytes; what it comes down to lexically is a
`Cleaned` path: from the root or from the working directory, up some levels, then down through names.  `clean` computes
it by pushing the elements between the slashes one by one, `Cleaned.text` is the shortest text for it, and `clean_text`
is that the text says the same path again.  A joined path is its first element's path with the other elements pushed
onto it (`clean_join`), which is where an element `..` takes a level away.
-/
namespace Ccb
namespace Filepath

def sep : UInt8 := 47
def dot : List UInt8 := [46]
def dotdot : List UInt8 := [46, 46]

/-- What a directory entry may be called. -/
def IsName (e : List UInt8) : Prop := e ≠ [] ∧ sep ∉ e ∧ e ≠ dot ∧ e ≠ dotdot

instance : DecidablePred IsName := fun e => inferInstanceAs (Decidable (e ≠ [] ∧ sep ∉ e ∧ e ≠ dot ∧ e ≠ dotdot))

@[ext] structure Cleaned where
  rooted : Bool
  ups    : Nat
  names  : List (List UInt8)
  isName : ∀ n ∈ names, IsName n
  top    : rooted = true → ups = 0
  deriving DecidableEq

/-- The root directory, or the working directory. -/
def Cleaned.start (rooted : Bool) : Cleaned := ⟨rooted, 0, [], fun _ h => (by cases h), fun _ => rfl⟩

/-- The directory above; the root has none. -/
def Cleaned.up (q : Cleaned) : Cleaned :=
  if q.names = [] then
    if h : q.rooted then q else ⟨false, q.ups + 1, [], fun _ h => (by cases h), fun h' => absurd h' Bool.false_ne_true⟩
  else ⟨q.rooted, q.ups, q.names.dropLast, fun n hn => q.isName n (List.mem_of_mem_dropLast hn), q.top⟩

def Cleaned.down (q : Cleaned) (e : List UInt8) (h : IsName e) : Cleaned :=
  ⟨q.rooted, q.ups, q.names ++ [e], fun n hn => (List.mem_append.1 hn).elim (q.isName n)
    (fun hn => (List.mem_singleton.1 hn) ▸ h), q.top⟩

/-- One more element: a name, `..`, or one that stands for nothing. -/
def Cleaned.push (q : Cleaned) (e : List UInt8) : Cleaned :=
  if h : IsName e then q.down e h else if e = dotdot then q.up else q

def clean (p : List UInt8) : Cleaned := (p.splitOn sep).foldl Cleaned.push (.start (p.head? == some sep))

def Cleaned.elems (q : Cleaned) : List (List UInt8) := List.replicate q.ups dotdot ++ q.names

def Cleaned.text (q : Cleaned) : List UInt8 :=
  if q.rooted then sep :: [sep].intercalate q.elems else if q.elems = [] then dot else [sep].intercalate q.elems

/-- `filepath.Join`: empty elements at the front are left out. -/
def join (es : List (List UInt8)) : List UInt8 :=
  match es.dropWhile (fun e => e = []) with
  | [] => []
  | e :: es => (clean ([sep].intercalate (e :: es))).text

/-- `q` is `p` or inside the directory `p`. -/
def Cleaned.Under (q p : Cleaned) : Prop := q.rooted = p.rooted ∧ q.ups = p.ups ∧ p.names <+: q.names

instance (q p : Cleaned) : Decidable (q.Under p) :=
  inferInstanceAs (Decidable (q.rooted = p.rooted ∧ q.ups = p.ups ∧ p.names <+: q.names))

/-- The path this many names further down. -/
def Cleaned.below (q : Cleaned) (l : List (List UInt8)) (h : ∀ n ∈ l, IsName n) : Cleaned :=
  ⟨q.rooted, q.ups, q.names ++ l, fun n hn => (List.mem_append.1 hn).elim (q.isName n) (h n), q.top⟩

/-! ## Elements -/

section
variable {q : Cleaned} {e : List UInt8}

theorem push_name (h : IsName e) : q.push e = q.down e h := by
  unfold Cleaned.push
  rw [dif_pos h]

theorem push_dotdot : q.push dotdot = q.up := by
  have hn : ¬ IsName dotdot := fun h => h.2.2.2 rfl
  unfold Cleaned.push
  rw [dif_neg hn, if_pos rfl]

theorem push_nil : q.push [] = q := by
  have hn : ¬ IsName [] := fun h => h.1 rfl
  unfold Cleaned.push
  rw [dif_neg hn, if_neg (by decide)]

theorem push_dot : q.push dot = q := by
  have hn : ¬ IsName dot := fun h => h.2.2.1 rfl
  unfold Cleaned.push
  rw [dif_neg hn, if_neg (by decide)]

theorem up_down (h : IsName e) : (q.down e h).up = q := by
  have hne : (q.down e h).names ≠ [] := List.append_ne_nil_of_right_ne_nil _ (List.cons_ne_nil _ _)
  unfold Cleaned.up
  rw [if_neg hne]
  exact Cleaned.ext rfl rfl (List.dropLast_concat ..)

theorem start_up : (Cleaned.start true).up = .start true := by decide

theorem ups_le_up (q : Cleaned) : q.ups ≤ q.up.ups := by
  unfold Cleaned.up
  split
  · split
    · exact le_rfl
    · exact Nat.le_succ _
  · exact le_rfl

theorem ups_le_push (q : Cleaned) (e : List UInt8) : q.ups ≤ (q.push e).ups := by
  unfold Cleaned.push
  split
  · exact le_rfl
  · split
    · exact ups_le_up q
    · exact le_rfl

theorem length_up_le (q : Cleaned) : q.up.names.length ≤ q.names.length := by
  unfold Cleaned.up
  split
  · split
    · exact le_rfl
    · exact Nat.zero_le _
  · rw [List.length_dropLast]
    exact Nat.sub_le ..

theorem length_push_le (q : Cleaned) (e : List UInt8) : (q.push e).names.length ≤ q.names.length + 1 := by
  unfold Cleaned.push
  split
  · exact (List.length_append).le
  · split
    · exact Nat.le_succ_of_le (length_up_le q)
    · exact Nat.le_succ _

/-- **One level up and one element on leads below nowhere but the root of all.** -/
theorem push_up_under (h : q ≠ .start true) (hu : (q.up.push e).Under q) : q.up.push e = q := by
  by_cases hn : q.names = []
  · -- the working directory or one above it: the way up is not undone
    have hr : q.rooted ≠ true := fun hr => h (Cleaned.ext hr (q.top hr) hn)
    have hup : q.up.ups = q.ups + 1 := by
      unfold Cleaned.up
      rw [if_pos hn, dif_neg hr]
    have hle := ups_le_push q.up e
    rw [hu.2.1, hup] at hle
    exact absurd hle (Nat.not_succ_le_self _)
  · have hup : q.up.names = q.names.dropLast := by
      unfold Cleaned.up
      rw [if_neg hn]
    have hlen := length_push_le q.up e
    rw [hup, List.length_dropLast, Nat.sub_add_cancel (List.length_pos_iff.2 hn)] at hlen
    exact Cleaned.ext hu.1 hu.2.1 (hu.2.2.eq_of_length_le hlen).symm

/-- **Names lead down.** -/
theorem foldl_push_names :
    ∀ (l : List (List UInt8)) (q : Cleaned) (h : ∀ n ∈ l, IsName n), l.foldl Cleaned.push q = q.below l h
  | [], q, _ => Cleaned.ext rfl rfl (List.append_nil _).symm
  | e :: l, q, h => by
    have hl : ∀ n ∈ l, IsName n := fun n hn => h n (List.mem_cons_of_mem _ hn)
    rw [List.foldl_cons, push_name (h e List.mem_cons_self), foldl_push_names l _ hl]
    exact Cleaned.ext rfl rfl (by simp [Cleaned.below, Cleaned.down])

theorem foldl_push_ups (n : Nat) :
    ((List.replicate n dotdot).foldl Cleaned.push (.start false)).rooted = false ∧
    ((List.replicate n dotdot).foldl Cleaned.push (.start false)).ups = n ∧
    ((List.replicate n dotdot).foldl Cleaned.push (.start false)).names = [] := by
  induction n with
  | zero => exact ⟨rfl, rfl, rfl⟩
  | succ n ih =>
    obtain ⟨hr, hu, hn⟩ := ih
    have hup : ∀ q : Cleaned, q.rooted = false → q.names = [] → q.up.rooted = false ∧ q.up.ups = q.ups + 1 ∧
        q.up.names = [] := by
      intro q hr hn
      unfold Cleaned.up
      rw [if_pos hn, dif_neg (by rw [hr]; exact Bool.false_ne_true)]
      exact ⟨rfl, rfl, rfl⟩
    rw [List.replicate_succ', List.foldl_append, List.foldl_cons, List.foldl_nil, push_dotdot]
    obtain ⟨hr', hu', hn'⟩ := hup _ hr hn
    exact ⟨hr', by rw [hu', hu], hn'⟩

/-- The elements of a path lead to it. -/
theorem foldl_push_elems (q : Cleaned) : q.elems.foldl Cleaned.push (.start q.rooted) = q := by
  unfold Cleaned.elems
  rw [List.foldl_append, foldl_push_names q.names _ q.isName]
  cases hr : q.rooted with
  | true =>
    rw [q.top hr]
    exact Cleaned.ext hr.symm (q.top hr).symm (List.nil_append _)
  | false =>
    obtain ⟨h1, h2, h3⟩ := foldl_push_ups q.ups
    exact Cleaned.ext (h1.trans hr.symm) h2 (by simp [Cleaned.below, h3])

theorem elems_ok (q : Cleaned) : ∀ e ∈ q.elems, e ≠ [] ∧ sep ∉ e := by
  intro e he
  rcases List.mem_append.1 he with he | he
  · rw [List.eq_of_mem_replicate he]
    exact ⟨by decide, by decide⟩
  · exact ⟨(q.isName e he).1, (q.isName e he).2.1⟩

end

/-! ## Texts -/

theorem head_intercalate {e : List UInt8} (he : e ≠ [] ∧ sep ∉ e) (es : List (List UInt8)) :
    (([sep].intercalate (e :: es)).head? == some sep) = false := by
  obtain ⟨b, e, rfl⟩ := List.exists_cons_of_ne_nil he.1
  have hb : b ≠ sep := fun h => he.2 (h ▸ List.mem_cons_self)
  have hhead : ([sep].intercalate ((b :: e) :: es)).head? = some b := by
    cases es with
    | nil => rfl
    | cons e' es => rw [List.intercalate_cons_cons]; rfl
  rw [hhead]
  exact beq_eq_false_iff_ne.2 (fun h => hb (Option.some.inj h))

/-- Elements between slashes, the first of them no empty one: a path from the working directory. -/
theorem clean_intercalate {e : List UInt8} {es : List (List UInt8)} (he : e ≠ [] ∧ sep ∉ e) (hes : ∀ e ∈ es, sep ∉ e) :
    clean ([sep].intercalate (e :: es)) = (e :: es).foldl Cleaned.push (.start false) := by
  have hsplit : ([sep].intercalate (e :: es)).splitOn sep = e :: es := by
    refine List.splitOn_intercalate sep (fun l hl => ?_) (List.cons_ne_nil _ _)
    rcases List.mem_cons.1 hl with rfl | hl
    · exact he.2
    · exact hes l hl
  unfold clean
  rw [hsplit, head_intercalate he es]

theorem splitOn_cons_sep (p : List UInt8) : (sep :: p).splitOn sep = [] :: p.splitOn sep :=
  List.splitOn_append_cons_self [] p

/-- **The text of a path says that path.** -/
theorem clean_text (q : Cleaned) : clean q.text = q := by
  unfold Cleaned.text
  cases hr : q.rooted with
  | true =>
    have hhead : ((sep :: [sep].intercalate q.elems).head? == some sep) = true := rfl
    have hfold : ([sep].intercalate q.elems |>.splitOn sep).foldl Cleaned.push (.start true) = q := by
      cases hel : q.elems with
      | nil =>
        rw [← foldl_push_elems q, hr, hel]
        exact push_nil
      | cons e es =>
        rw [List.splitOn_intercalate sep (fun l hl => (elems_ok q l (hel ▸ hl)).2) (List.cons_ne_nil _ _), ← hel, ← hr]
        exact foldl_push_elems q
    rw [if_pos rfl]
    unfold clean
    rw [hhead, splitOn_cons_sep, List.foldl_cons, push_nil]
    exact hfold
  | false =>
    rw [if_neg Bool.false_ne_true]
    have hq := foldl_push_elems q
    rw [hr] at hq
    cases hel : q.elems with
    | nil =>
      rw [if_pos rfl, ← hq, hel]
      decide
    | cons e es =>
      rw [if_neg (List.cons_ne_nil _ _)]
      have hok : ∀ x ∈ e :: es, x ≠ [] ∧ sep ∉ x := fun x hx => elems_ok q x (hel ▸ hx)
      rw [clean_intercalate (hok e List.mem_cons_self) (fun x hx => (hok x (List.mem_cons_of_mem _ hx)).2), ← hel]
      exact hq

/-- **A joined path** is the first one with the others pushed onto it. -/
theorem clean_join (p : List UInt8) (es : List (List UInt8)) (hes : ∀ e ∈ es, sep ∉ e) :
    clean (join (p :: es)) = es.foldl Cleaned.push (clean p) := by
  by_cases hp : p = []
  · -- what is left is the elements from the first one that is not empty on
    subst hp
    have hdrop : ∀ es : List (List UInt8), es.foldl Cleaned.push (.start false) =
        (es.dropWhile (fun e => e = [])).foldl Cleaned.push (.start false) := by
      intro es
      induction es with
      | nil => rfl
      | cons e es ih =>
        by_cases he : e = []
        · subst he
          rw [List.foldl_cons, push_nil, ih]
          rfl
        · rw [List.dropWhile_cons_of_neg (by simpa using he)]
    have hstart : clean [] = .start false := by decide
    rw [hstart, hdrop]
    unfold join
    rw [List.dropWhile_cons_of_pos (by simp)]
    cases hd : es.dropWhile (fun e => e = []) with
    | nil => exact hstart
    | cons e rest =>
      have hsub : ∀ x ∈ e :: rest, sep ∉ x := fun x hx => hes x ((List.dropWhile_suffix _).subset (hd ▸ hx))
      have hne : e ≠ [] := by
        have hdn : es.dropWhile (fun e => decide (e = [])) ≠ [] := by rw [hd]; exact List.cons_ne_nil _ _
        have hhead := List.head_dropWhile_not (fun e => decide (e = [])) hdn
        simp only [hd, List.head_cons, decide_eq_false_iff_not] at hhead
        exact hhead
      dsimp only
      rw [clean_text, clean_intercalate ⟨hne, hsub e List.mem_cons_self⟩
        (fun x hx => hsub x (List.mem_cons_of_mem _ hx))]
  · unfold join
    rw [List.dropWhile_cons_of_neg (by simpa using hp)]
    dsimp only
    rw [clean_text]
    cases es with
    | nil => rw [List.intercalate_singleton]; rfl
    | cons e es =>
      obtain ⟨b, p, rfl⟩ := List.exists_cons_of_ne_nil hp
      unfold clean
      rw [List.intercalate_cons_cons, List.append_assoc, List.singleton_append, List.splitOn_append_cons_self,
        List.splitOn_intercalate sep hes (List.cons_ne_nil _ _), List.foldl_append]
      rfl

/-! ## Directories -/

section
variable {q : Cleaned} {l l' : List (List UInt8)} {h : ∀ n ∈ l, IsName n} {h' : ∀ n ∈ l', IsName n}

theorem below_under_below : (q.below l h).Under (q.below l' h') ↔ l' <+: l := by
  constructor
  · exact fun hu => (List.prefix_append_right_inj q.names).1 hu.2.2
  · exact fun hp => ⟨rfl, rfl, (List.prefix_append_right_inj q.names).2 hp⟩

theorem below_under : (q.below l h).Under q := ⟨rfl, rfl, List.prefix_append q.names l⟩

theorem below_ne (hl : l ≠ []) : q.below l h ≠ q := by
  intro he
  have hn : q.names ++ l = q.names := congrArg Cleaned.names he
  exact hl (List.append_right_eq_self.1 hn)

/-- **Two directories neither of which contains the other have nothing in common.** -/
theorem under_apart {p p' : Cleaned} (h : ¬ p.Under p') (h' : ¬ p'.Under p) {x : Cleaned} (hx : x.Under p) :
    ¬ x.Under p' := by
  intro hx'
  rcases List.prefix_or_prefix_of_prefix hx.2.2 hx'.2.2 with hp | hp
  · exact h' ⟨hx'.1.symm.trans hx.1, hx'.2.1.symm.trans hx.2.1, hp⟩
  · exact h ⟨hx.1.symm.trans hx'.1, hx.2.1.symm.trans hx'.2.1, hp⟩

end

end Filepath
end Ccb
