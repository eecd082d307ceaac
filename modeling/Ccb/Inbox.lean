import Ccb.Filepath
import Ccb.Discovery
/-!
# Inbox — where the files of a marker's tunnel are

`connPath` (inbox.go) makes a path of a name that was read from the inbox: it splits the name after two bytes and joins
the pieces to the root.  `filepath.Join` cleans what it joins, so a piece that is `.` or `..` is no directory below the
root but a step on the way, and `reapWhenDone` (listen.go) removes whatever the path comes down to.  `levels` is what
cleaning leaves of the pieces, and by it `subtrees_separate` says exactly which names have subtrees below the root,
outside the inbox and apart from each other.  The conn-ids of `newConnID` are such names, and the paths of the
Listener's model are theirs (`connPath_connID`), so in its runs no reap reaches a subtree but its own
(`tunnel_subtrees_separate`).
-/
namespace Ccb
namespace Inbox

open Filepath

/-- `inbox`. -/
def inboxDirName : List UInt8 := [0x69, 0x6e, 0x62, 0x6f, 0x78]

def hashPrefixLen : Nat := 2

def connPath (root id : List UInt8) : List UInt8 :=
  if id.length ≤ hashPrefixLen then join [root, id] else join [root, id.take hashPrefixLen, id.drop hashPrefixLen]

def inboxMarkerPath (root id : List UInt8) : List UInt8 := join [root, inboxDirName, id]

def inboxPath (root : List UInt8) : List UInt8 := join [root, inboxDirName]

/-- A name a directory listing can yield. -/
structure EntryName where
  bytes  : List UInt8
  isName : IsName bytes
  deriving DecidableEq

/-! ## Removing -/

def endsWithDot (p : List UInt8) : Bool := p = dot || (sep :: dot).isSuffixOf p

/-- `os.RemoveAll`, on the paths there are files at. -/
def removeAll (p : List UInt8) (files : List Cleaned) : List Cleaned :=
  if p = [] ∨ endsWithDot p then files else files.filter (fun x => ¬ x.Under (clean p))

/-- `os.Remove`, which leaves a directory that is not empty. -/
def remove (p : List UInt8) (files : List Cleaned) : List Cleaned :=
  if files.any (fun x => x.Under (clean p) ∧ x ≠ clean p) then files else files.filter (fun x => x ≠ clean p)

/-- What `reapWhenDone` does to the files below the root. -/
def reapWhenDone (root id : List UInt8) (files : List Cleaned) : List Cleaned :=
  remove (inboxMarkerPath root id) (removeAll (connPath root id) files)

/-! ## Pieces -/

/-- What `connPath` joins to the root. -/
def pieces (id : List UInt8) : List (List UInt8) :=
  if id.length ≤ hashPrefixLen then [id] else [id.take hashPrefixLen, id.drop hashPrefixLen]

/-- The names below the root that the cleaned pieces lead down through; `none` if they lead out of the root. -/
def levels (root id : List UInt8) : Option (List (List UInt8)) :=
  let fo := id.take hashPrefixLen
  let re := id.drop hashPrefixLen
  if id.length ≤ hashPrefixLen then some [id]
  else if fo = dotdot then
    -- only the directory above `/` is that directory itself
    if clean root = .start true then some (if re = dot ∨ re = dotdot then [] else [re]) else none
  else some (if re = dotdot then [] else if re = dot then [fo] else [fo, re])

/-- The pieces of `id` lead to a directory of the root's, by way of these names and not of the inbox. -/
def Placed (root id : List UInt8) (l : List (List UInt8)) : Prop :=
  levels root id = some l ∧ l ≠ [] ∧ l.head? ≠ some inboxDirName

instance (root id : List UInt8) (l : List (List UInt8)) : Decidable (Placed root id l) :=
  inferInstanceAs (Decidable (levels root id = some l ∧ l ≠ [] ∧ l.head? ≠ some inboxDirName))

/-- The pieces of both names lead into the root, and neither way is the beginning of the other. -/
def Apart (root id id' : List UInt8) : Prop :=
  ∃ l l', Placed root id l ∧ Placed root id' l' ∧ ¬ l <+: l' ∧ ¬ l' <+: l

/-- A subtree below the root that is not in the inbox. -/
structure Confined (root id : List UInt8) : Prop where
  below : (clean (connPath root id)).Under (clean root)
  ne    : clean (connPath root id) ≠ clean root
  out   : ¬ (clean (connPath root id)).Under (clean (inboxPath root))

/-- Two subtrees below the root, outside the inbox, neither of which contains the other. -/
structure Separate (root id id' : List UInt8) : Prop where
  left   : Confined root id
  right  : Confined root id'
  ne     : connPath root id ≠ connPath root id'
  apart  : ¬ (clean (connPath root id)).Under (clean (connPath root id'))
  apart' : ¬ (clean (connPath root id')).Under (clean (connPath root id))

section
variable {root id id' : List UInt8} {l l' : List (List UInt8)}

theorem pieces_flatten (id : List UInt8) : (pieces id).flatten = id := by
  unfold pieces
  split
  · simp
  · simp

theorem sep_pieces (h : sep ∉ id) : ∀ e ∈ pieces id, sep ∉ e := by
  intro e he hsep
  refine h ?_
  rw [← pieces_flatten id]
  exact List.mem_flatten.2 ⟨e, he, hsep⟩

theorem clean_connPath (root : List UInt8) (h : sep ∉ id) :
    clean (connPath root id) = (pieces id).foldl Cleaned.push (clean root) := by
  have hp : connPath root id = join (root :: pieces id) := by
    unfold connPath pieces
    split <;> rfl
  rw [hp]
  exact clean_join root _ (sep_pieces h)

/-- Of a name longer than two bytes, the first two are a name but for `..`. -/
theorem take_isName (hn : IsName id) (hlen : ¬ id.length ≤ hashPrefixLen) (h : id.take hashPrefixLen ≠ dotdot) :
    IsName (id.take hashPrefixLen) := by
  have htwo : (id.take hashPrefixLen).length = 2 := by
    rw [List.length_take]
    exact Nat.min_eq_left (Nat.lt_of_not_le hlen).le
  refine ⟨fun hnil => ?_, fun hsep => hn.2.1 (List.mem_of_mem_take hsep), fun hone => ?_, h⟩
  · rw [hnil] at htwo
    cases htwo
  · rw [hone] at htwo
    cases htwo

/-- What follows them is a name but for `.` and `..`. -/
theorem drop_isName (hn : IsName id) (hlen : ¬ id.length ≤ hashPrefixLen) (hdot : id.drop hashPrefixLen ≠ dot)
    (hdotdot : id.drop hashPrefixLen ≠ dotdot) : IsName (id.drop hashPrefixLen) :=
  ⟨fun hnil => hlen (List.drop_eq_nil_iff.1 hnil), fun hsep => hn.2.1 (List.mem_of_mem_drop hsep), hdot, hdotdot⟩

theorem foldl_push_pair (q : Cleaned) (fo re : List UInt8) : [fo, re].foldl Cleaned.push q = (q.push fo).push re := rfl

/-- Down through `fo`, and from there to `re`. -/
theorem push_pair_down {fo re : List UInt8} (q : Cleaned) (hfo : IsName fo) (hre : re ≠ dot → re ≠ dotdot → IsName re) :
    ∃ l, l = (if re = dotdot then [] else if re = dot then [fo] else [fo, re]) ∧ (∀ n ∈ l, IsName n) ∧
      (q.push fo).push re = l.foldl Cleaned.push q := by
  by_cases hdotdot : re = dotdot
  · refine ⟨[], (if_pos hdotdot).symm, fun n hmem => absurd hmem List.not_mem_nil, ?_⟩
    rw [hdotdot, push_dotdot, push_name hfo, up_down]
    rfl
  rw [if_neg hdotdot]
  by_cases hdot : re = dot
  · refine ⟨[fo], (if_pos hdot).symm, fun n hmem => List.mem_singleton.1 hmem ▸ hfo, ?_⟩
    rw [hdot, push_dot]
    rfl
  · refine ⟨[fo, re], (if_neg hdot).symm, fun n hmem => ?_, rfl⟩
    rcases List.mem_cons.1 hmem with rfl | hmem
    · exact hfo
    · exact List.mem_singleton.1 hmem ▸ hre hdot hdotdot

/-- `/` is its own parent. -/
theorem push_pair_top {re : List UInt8} (hre : re ≠ dot → re ≠ dotdot → IsName re) :
    ∃ l, l = (if re = dot ∨ re = dotdot then [] else [re]) ∧ (∀ n ∈ l, IsName n) ∧
      ((Cleaned.start true).push dotdot).push re = l.foldl Cleaned.push (.start true) := by
  rw [push_dotdot, start_up]
  by_cases h : re = dot ∨ re = dotdot
  · refine ⟨[], (if_pos h).symm, fun n hmem => absurd hmem List.not_mem_nil, ?_⟩
    rcases h with rfl | rfl
    · rw [push_dot]
      rfl
    · rw [push_dotdot, start_up]
      rfl
  · refine ⟨[re], (if_neg h).symm, fun n hmem => List.mem_singleton.1 hmem ▸ ?_, rfl⟩
    rw [not_or] at h
    exact hre h.1 h.2

theorem pieces_levels (hn : IsName id) (h : levels root id = some l) :
    (∀ n ∈ l, IsName n) ∧ (pieces id).foldl Cleaned.push (clean root) = l.foldl Cleaned.push (clean root) := by
  unfold levels at h
  dsimp only at h
  unfold pieces
  by_cases hlen : id.length ≤ hashPrefixLen
  · rw [if_pos hlen] at h ⊢
    cases h
    exact ⟨fun n hmem => List.mem_singleton.1 hmem ▸ hn, rfl⟩
  rw [if_neg hlen] at h ⊢
  rw [foldl_push_pair]
  by_cases hfo : id.take hashPrefixLen = dotdot
  · rw [if_pos hfo] at h
    by_cases hroot : clean root = .start true
    · rw [if_pos hroot] at h
      obtain ⟨l', hl', hnames, hpush⟩ := push_pair_top (drop_isName hn hlen)
      rw [← hl'] at h
      cases h
      rw [hfo, hroot]
      exact ⟨hnames, hpush⟩
    · rw [if_neg hroot] at h
      cases h
  · rw [if_neg hfo] at h
    obtain ⟨l', hl', hnames, hpush⟩ := push_pair_down (clean root) (take_isName hn hlen hfo) (drop_isName hn hlen)
    rw [← hl'] at h
    cases h
    exact ⟨hnames, hpush⟩

/-- **Where the levels lead**, the subtree is. -/
theorem clean_connPath_levels (hn : IsName id) (h : levels root id = some l) :
    ∃ hl, clean (connPath root id) = (clean root).below l hl := by
  obtain ⟨hl, hfold⟩ := pieces_levels hn h
  exact ⟨hl, by rw [clean_connPath root hn.2.1, hfold, foldl_push_names l _ hl]⟩

/-- **With no levels**, the subtree is not inside the root. -/
theorem clean_connPath_out (hn : IsName id) (h : levels root id = none)
    (hu : (clean (connPath root id)).Under (clean root)) :
    clean (connPath root id) = clean root := by
  rw [clean_connPath root hn.2.1] at hu ⊢
  unfold levels at h
  dsimp only at h
  split at h
  · cases h
  rename_i hlen
  split at h
  · rename_i hfo
    split at h
    · cases h
    rename_i hroot
    have hp : (pieces id).foldl Cleaned.push (clean root) = (clean root).up.push (id.drop hashPrefixLen) := by
      unfold pieces
      rw [if_neg hlen, foldl_push_pair, hfo, push_dotdot]
    rw [hp] at hu ⊢
    exact push_up_under hroot hu
  · cases h

theorem inboxDirName_isName : IsName inboxDirName := by decide

theorem clean_inboxPath (root : List UInt8) :
    clean (inboxPath root) =
      (clean root).below [inboxDirName] (fun _ hn => List.mem_singleton.1 hn ▸ inboxDirName_isName) := by
  unfold inboxPath
  rw [clean_join root _ (fun e he => List.mem_singleton.1 he ▸ inboxDirName_isName.2.1), foldl_push_names]

theorem prefix_inbox : [inboxDirName] <+: l ↔ l.head? = some inboxDirName := by
  cases l with
  | nil => simp
  | cons e l => simp [List.cons_prefix_cons, eq_comm]

/-- **A subtree is confined where its levels are some and do not begin with the inbox.** -/
theorem confined_iff (hn : IsName id) : Confined root id ↔ ∃ l, Placed root id l := by
  constructor
  · intro hc
    cases hl : levels root id with
    | none => exact absurd (clean_connPath_out hn hl hc.below) hc.ne
    | some l =>
      obtain ⟨_, hbelow⟩ := clean_connPath_levels hn hl
      refine ⟨l, hl, fun hnil => hc.ne ?_, fun hhead => hc.out ?_⟩
      · subst hnil
        rw [hbelow]
        exact Cleaned.ext rfl rfl (List.append_nil _)
      · rw [hbelow, clean_inboxPath]
        exact below_under_below.2 (prefix_inbox.2 hhead)
  · rintro ⟨l, hl, hne, hhead⟩
    obtain ⟨_, hbelow⟩ := clean_connPath_levels hn hl
    refine ⟨?_, ?_, fun hu => hhead ?_⟩
    · rw [hbelow]
      exact below_under
    · rw [hbelow]
      exact below_ne hne
    · rw [hbelow, clean_inboxPath] at hu
      exact prefix_inbox.1 (below_under_below.1 hu)

/-- **Two subtrees are separate where their levels are apart.** -/
theorem separate_iff (hn : IsName id) (hn' : IsName id') : Separate root id id' ↔ Apart root id id' := by
  constructor
  · intro hs
    obtain ⟨l, hl⟩ := (confined_iff hn).1 hs.left
    obtain ⟨l', hl'⟩ := (confined_iff hn').1 hs.right
    obtain ⟨_, hbelow⟩ := clean_connPath_levels hn hl.1
    obtain ⟨_, hbelow'⟩ := clean_connPath_levels hn' hl'.1
    refine ⟨l, l', hl, hl', fun hpre => hs.apart' ?_, fun hpre => hs.apart ?_⟩
    · rw [hbelow, hbelow']
      exact below_under_below.2 hpre
    · rw [hbelow, hbelow']
      exact below_under_below.2 hpre
  · rintro ⟨l, l', hl, hl', hpre, hpre'⟩
    obtain ⟨_, hbelow⟩ := clean_connPath_levels hn hl.1
    obtain ⟨_, hbelow'⟩ := clean_connPath_levels hn' hl'.1
    have hapart : ¬ (clean (connPath root id)).Under (clean (connPath root id')) := by
      rw [hbelow, hbelow']
      exact fun hu => hpre' (below_under_below.1 hu)
    refine ⟨(confined_iff hn).2 ⟨l, hl⟩, (confined_iff hn').2 ⟨l', hl'⟩, fun he => hapart ?_, hapart, ?_⟩
    · rw [he]
      exact ⟨rfl, rfl, List.prefix_rfl⟩
    · rw [hbelow, hbelow']
      exact fun hu => hpre (below_under_below.1 hu)

theorem clean_inboxMarkerPath (root : List UInt8) (hn : IsName id) :
    (clean (inboxMarkerPath root id)).Under (clean (inboxPath root)) ∧
      clean (inboxMarkerPath root id) ≠ clean root := by
  have hnames : ∀ e ∈ [inboxDirName, id], IsName e := by
    intro e he
    rcases List.mem_cons.1 he with rfl | he
    · exact inboxDirName_isName
    · exact List.mem_singleton.1 he ▸ hn
  have hclean : clean (inboxMarkerPath root id) = (clean root).below [inboxDirName, id] hnames := by
    unfold inboxMarkerPath
    rw [clean_join root _ (fun e he => (hnames e he).2.1), foldl_push_names]
  rw [hclean, clean_inboxPath]
  exact ⟨below_under_below.2 ⟨[id], rfl⟩, below_ne (List.cons_ne_nil _ _)⟩

/-- **The inbox is in no confined subtree.** -/
theorem Confined.inbox_out (hn : IsName id) (hc : Confined root id) :
    ¬ (clean (inboxPath root)).Under (clean (connPath root id)) := by
  obtain ⟨l, hl, hne, hhead⟩ := (confined_iff hn).1 hc
  obtain ⟨_, hbelow⟩ := clean_connPath_levels hn hl
  rw [hbelow, clean_inboxPath]
  intro hu
  obtain ⟨e, l, rfl⟩ := List.exists_cons_of_ne_nil hne
  have he : e = inboxDirName := (List.cons_prefix_cons.1 (below_under_below.1 hu)).1
  exact hhead (congrArg some he)

/-- What `reapWhenDone` leaves. -/
theorem mem_reapWhenDone {files : List Cleaned} {x : Cleaned} (hx : x ∈ files)
    (hsub : ¬ x.Under (clean (connPath root id))) (hmark : x ≠ clean (inboxMarkerPath root id)) :
    x ∈ reapWhenDone root id files := by
  have hall : x ∈ removeAll (connPath root id) files := by
    unfold removeAll
    split
    · exact hx
    · exact List.mem_filter.2 ⟨hx, decide_eq_true hsub⟩
  unfold reapWhenDone remove
  split
  · exact hall
  · exact List.mem_filter.2 ⟨hall, decide_eq_true hmark⟩

/-- What a reap of `id` is to leave: the subtree of `id'`, the root and every other marker. -/
def Spared (root id id' : List UInt8) (x : Cleaned) : Prop :=
  x.Under (clean (connPath root id')) ∨ x = clean root ∨
    (x.Under (clean (inboxPath root)) ∧ x ≠ clean (inboxMarkerPath root id))

/-- **A reap of one of two separate subtrees** leaves the other. -/
theorem Separate.reap (hn : IsName id) (hn' : IsName id') (hs : Separate root id id') {files : List Cleaned}
    {x : Cleaned} (hx : x ∈ files) (hsp : Spared root id id' x) : x ∈ reapWhenDone root id files := by
  obtain ⟨hmark, hmarkroot⟩ := clean_inboxMarkerPath root hn
  rcases hsp with hsub | rfl | ⟨hbox, hne'⟩
  · refine mem_reapWhenDone hx (under_apart hs.apart' hs.apart hsub) (fun he => ?_)
    exact under_apart hs.right.out (hs.right.inbox_out hn') hsub (he ▸ hmark)
  · refine mem_reapWhenDone hx (fun hu => hs.left.ne ?_) hmarkroot.symm
    exact Cleaned.ext hu.1.symm hu.2.1.symm (hu.2.2.eq_of_length_le hs.left.below.2.2.length_le)
  · exact mem_reapWhenDone hx (under_apart (hs.left.inbox_out hn) hs.left.out hbox) hne'

end

/-- **Where the subtrees of two names are separate and confined**: exactly where the pieces of both lead into the root
and not into its inbox, and neither way is the beginning of the other.  A reap of the one then leaves the other subtree,
the root and every other marker; and for every name, a subtree two levels down is found under the name its levels make
up. -/
theorem subtrees_separate (root : List UInt8) (id₁ id₂ : EntryName) :
    (Separate root id₁.bytes id₂.bytes ↔ Apart root id₁.bytes id₂.bytes) ∧
    (Apart root id₁.bytes id₂.bytes → ∀ (files : List Cleaned) (x : Cleaned), x ∈ files →
      Spared root id₁.bytes id₂.bytes x → x ∈ reapWhenDone root id₁.bytes files) ∧
    ∀ fo re : EntryName, fo.bytes.length = 2 → connPath root (fo.bytes ++ re.bytes) = join
      [root, fo.bytes, re.bytes] := by
  have hiff := @separate_iff root id₁.bytes id₂.bytes id₁.isName id₂.isName
  refine ⟨hiff, fun ha files x hx hsp => (hiff.2 ha).reap id₁.isName id₂.isName hx hsp, fun fo re hfo => ?_⟩
  have hlen : ¬ (fo.bytes ++ re.bytes).length ≤ hashPrefixLen := by
    have hre := List.length_pos_iff.2 re.isName.1
    rw [List.length_append, hfo]
    show ¬ 2 + re.bytes.length ≤ 2
    omega
  unfold connPath
  rw [if_neg hlen, show hashPrefixLen = fo.bytes.length from hfo.symm, List.take_left, List.drop_left]

/-- Two hexadecimal names under `/r`; `ab.` beside `xyz`; and `..x` beside `xyz` under `/`. -/
theorem subtrees_separate_hex :
    Separate [47, 114] [97, 98, 99] [97, 98, 100] ∧ Separate [47, 114] [97, 98, 46] [120, 121, 122] ∧
      Separate [47] [46, 46, 120] [120, 121, 122] ∧
    reapWhenDone [47, 114] [97, 98, 99]
        [clean [47, 114], clean [47, 114, 47, 97, 98, 47, 99], clean [47, 114, 47, 97, 98, 47, 100]] =
      [clean [47, 114], clean [47, 114, 47, 97, 98, 47, 100]] :=
  ⟨(subtrees_separate [47, 114] ⟨[97, 98, 99], by decide⟩ ⟨[97, 98, 100], by decide⟩).1.2
      ⟨[[97, 98], [99]], [[97, 98], [100]], by decide, by decide, by decide, by decide⟩,
    (subtrees_separate [47, 114] ⟨[97, 98, 46], by decide⟩ ⟨[120, 121, 122], by decide⟩).1.2
      ⟨[[97, 98]], [[120, 121], [122]], by decide, by decide, by decide, by decide⟩,
    (subtrees_separate [47] ⟨[46, 46, 120], by decide⟩ ⟨[120, 121, 122], by decide⟩).1.2
      ⟨[[120]], [[120, 121], [122]], by decide, by decide, by decide, by decide⟩, by decide⟩

/-- **Names that lead elsewhere.**  The subtree of `ab..` is the root itself, so its reap removes everything; that of
`..x` is outside the root; those of `ab` and `ab.` contain that of `abc`. -/
theorem dotted_names_escape :
    (∃ id : EntryName, (∀ root, clean (connPath root id.bytes) = clean root) ∧
      reapWhenDone [47, 114] id.bytes
        [clean [47, 114], clean [47, 114, 47, 97, 98, 47, 99], clean (inboxPath [47, 114])] = []) ∧
    (∃ id : EntryName, ¬ (clean (connPath [47, 114] id.bytes)).Under (clean [47, 114])) ∧
    ∃ id id' id'' : EntryName, id ≠ id'' ∧ id' ≠ id'' ∧
      ∀ root, (clean (connPath root id''.bytes)).Under (clean (connPath root id.bytes)) ∧
        (clean (connPath root id''.bytes)).Under (clean (connPath root id'.bytes)) := by
  have hab : IsName [97, 98] := by decide
  refine ⟨⟨⟨[97, 98, 46, 46], by decide⟩, fun root => ?_, by decide⟩, ⟨⟨[46, 46, 120], by decide⟩, by decide⟩,
    ⟨[97, 98], by decide⟩, ⟨[97, 98, 46], by decide⟩, ⟨[97, 98, 99], by decide⟩, by decide, by decide, fun root => ?_⟩
  · rw [clean_connPath root (by decide)]
    show ((clean root).push [97, 98]).push dotdot = clean root
    rw [push_name hab, push_dotdot, up_down]
  · rw [clean_connPath root (by decide), clean_connPath root (by decide), clean_connPath root (by decide)]
    show (((clean root).push [97, 98]).push [99]).Under ((clean root).push [97, 98]) ∧
      (((clean root).push [97, 98]).push [99]).Under (((clean root).push [97, 98]).push dot)
    rw [push_dot, push_name (q := (clean root).push [97, 98]) (show IsName [99] by decide)]
    exact ⟨⟨rfl, rfl, List.prefix_append _ _⟩, ⟨rfl, rfl, List.prefix_append _ _⟩⟩

/-! ## Conn-ids -/

/-- The bytes of a string. -/
def bytesOf (s : String) : List UInt8 := s.toList.flatMap String.utf8EncodeChar

def hexDigit (c : Char) : Bool := ('0' ≤ c && c ≤ '9') || ('a' ≤ c && c ≤ 'f')

theorem hexDigit_byte {c : Char} (h : hexDigit c = true) :
    String.utf8EncodeChar c = [UInt8.ofNat c.toNat] ∧ 48 ≤ c.toNat ∧ c.toNat < 128 := by
  have hrange : (48 ≤ c.toNat ∧ c.toNat ≤ 57) ∨ (97 ≤ c.toNat ∧ c.toNat ≤ 102) := by
    simpa [hexDigit, Char.le_def, UInt32.le_iff_toNat_le] using h
  have hle : c.val.toNat ≤ 127 := by
    show c.toNat ≤ 127
    omega
  refine ⟨?_, by omega, by omega⟩
  unfold String.utf8EncodeChar
  rw [if_pos hle]
  rfl

/-- Hexadecimal digits are a byte each. -/
theorem flatMap_hex : ∀ {l : List Char}, (∀ c ∈ l, hexDigit c = true) →
    l.flatMap String.utf8EncodeChar = l.map (fun c => UInt8.ofNat c.toNat)
  | [], _ => rfl
  | c :: l, h => by
    rw [List.flatMap_cons, (hexDigit_byte (h c List.mem_cons_self)).1,
      flatMap_hex (fun c hc => h c (List.mem_cons_of_mem _ hc))]
    rfl

section
variable {id id' : String}

theorem connID_digits (h : Listener.isConnID id = true) :
    id.toList.length = 32 ∧ ∀ c ∈ id.toList, hexDigit c = true := by
  unfold Listener.isConnID at h
  simp only [Bool.and_eq_true, beq_iff_eq] at h
  exact ⟨h.1, List.all_eq_true.1 h.2⟩

theorem bytesOf_connID (h : Listener.isConnID id = true) :
    bytesOf id = id.toList.map (fun c => UInt8.ofNat c.toNat) := flatMap_hex (connID_digits h).2

theorem bytesOf_length (h : Listener.isConnID id = true) : (bytesOf id).length = 32 := by
  rw [bytesOf_connID h, List.length_map]
  exact (connID_digits h).1

/-- No byte of a conn-id is as low as a slash or a dot. -/
theorem bytesOf_ge (h : Listener.isConnID id = true) : ∀ b ∈ bytesOf id, 48 ≤ b.toNat := by
  intro b hb
  rw [bytesOf_connID h] at hb
  obtain ⟨c, hc, rfl⟩ := List.mem_map.1 hb
  obtain ⟨-, hlow, hhigh⟩ := hexDigit_byte ((connID_digits h).2 c hc)
  rw [UInt8.toNat_ofNat_of_lt' (Nat.lt_trans hhigh (by decide))]
  exact hlow

theorem connID_isName (h : Listener.isConnID id = true) : IsName (bytesOf id) := by
  have hlen := bytesOf_length h
  have hlong : ∀ e : List UInt8, e.length < 32 → bytesOf id ≠ e := fun e he heq => by rw [heq] at hlen; omega
  exact ⟨hlong [] (by decide), fun hsep => absurd (bytesOf_ge h sep hsep) (by decide), hlong dot (by decide),
    hlong dotdot (by decide)⟩

/-- The pieces of a conn-id are the parts of the listener's path for it. -/
theorem pieces_connID (h : Listener.isConnID id = true) : pieces (bytesOf id) = (Listener.connPath id).map bytesOf := by
  obtain ⟨hlen, hhex⟩ := connID_digits h
  have hpart : ∀ l : List Char, (∀ c ∈ l, hexDigit c = true) →
      bytesOf (String.ofList l) = l.map (fun c => UInt8.ofNat c.toNat) := by
    intro l hl
    unfold bytesOf
    rw [String.toList_ofList, flatMap_hex hl]
  have hshort : ¬ (bytesOf id).length ≤ hashPrefixLen := by rw [bytesOf_length h]; decide
  unfold pieces Listener.connPath
  rw [if_neg hshort, if_neg (by rw [hlen]; decide), bytesOf_connID h, ← List.map_take, ← List.map_drop, List.map_cons,
    List.map_cons, List.map_nil, hpart _ (fun c hc => hhex c (List.mem_of_mem_take hc)),
    hpart _ (fun c hc => hhex c (List.mem_of_mem_drop hc))]
  rfl

/-- Cleaning takes nothing from the pieces of a conn-id. -/
theorem levels_connID (root : List UInt8) (h : Listener.isConnID id = true) :
    levels root (bytesOf id) = some ((Listener.connPath id).map bytesOf) := by
  have hlen := bytesOf_length h
  have hdrop : ∀ e : List UInt8, e.length < 30 → (bytesOf id).drop hashPrefixLen ≠ e := by
    intro e he heq
    have hl := congrArg List.length heq
    rw [List.length_drop, hlen] at hl
    change 32 - 2 = e.length at hl
    omega
  have htake : (bytesOf id).take hashPrefixLen ≠ dotdot := by
    intro htake
    have hmem : (46 : UInt8) ∈ (bytesOf id).take hashPrefixLen := by rw [htake]; decide
    exact absurd (bytesOf_ge h 46 (List.mem_of_mem_take hmem)) (by decide)
  have hlong : ¬ (bytesOf id).length ≤ hashPrefixLen := by rw [hlen]; decide
  rw [← pieces_connID h]
  unfold levels pieces
  dsimp only
  rw [if_neg hlong, if_neg htake, if_neg (hdrop dotdot (by decide)), if_neg (hdrop dot (by decide)), if_neg hlong]

/-- **The subtree of a conn-id** is at the listener's path for it, below the root. -/
theorem connPath_connID (root : List UInt8) (h : Listener.isConnID id = true) :
    ∃ hn, clean (connPath root (bytesOf id)) = (clean root).below ((Listener.connPath id).map bytesOf) hn :=
  clean_connPath_levels (connID_isName h) (levels_connID root h)

theorem toList_connID (h : Listener.isConnID id = true) :
    (bytesOf id).map (fun b => Char.ofNat b.toNat) = id.toList := by
  have hback : ∀ c ∈ id.toList, Char.ofNat (UInt8.ofNat c.toNat).toNat = c := by
    intro c hc
    obtain ⟨-, -, hhigh⟩ := hexDigit_byte ((connID_digits h).2 c hc)
    rw [UInt8.toNat_ofNat_of_lt' (Nat.lt_trans hhigh (by decide)), Char.ofNat_toNat]
  rw [bytesOf_connID h, List.map_map]
  exact (List.map_congr_left hback).trans (List.map_id' _)

theorem bytesOf_inj (h : Listener.isConnID id = true) (h' : Listener.isConnID id' = true)
    (he : bytesOf id = bytesOf id') : id = id' := by
  rw [← String.toList_inj, ← toList_connID h, ← toList_connID h', he]

theorem placed_connID (root : List UInt8) (h : Listener.isConnID id = true) :
    Placed root (bytesOf id) ((Listener.connPath id).map bytesOf) := by
  have htwo : ((Listener.connPath id).map bytesOf).length = 2 := by
    rw [List.length_map]
    exact Listener.length_connPath h
  refine ⟨levels_connID root h, fun hnil => ?_, fun hhead => ?_⟩
  · rw [hnil] at htwo
    cases htwo
  · -- the first piece has two bytes, the inbox's name five
    rw [← pieces_connID h] at hhead
    unfold pieces at hhead
    rw [if_neg (by rw [bytesOf_length h]; decide)] at hhead
    have hlen := congrArg List.length (Option.some.inj hhead)
    rw [List.length_take, bytesOf_length h] at hlen
    cases hlen

/-- **Conn-ids that differ have separate subtrees.** -/
theorem separate_connIDs (root : List UInt8) (h : Listener.isConnID id = true) (h' : Listener.isConnID id' = true)
    (hne : id ≠ id') : Separate root (bytesOf id) (bytesOf id') := by
  have hapart : ∀ {id id' : String}, Listener.isConnID id = true → Listener.isConnID id' = true → id ≠ id' →
      ¬ (Listener.connPath id).map bytesOf <+: (Listener.connPath id').map bytesOf := by
    intro id id' h h' hne hpre
    have heq := hpre.eq_of_length (by rw [List.length_map, List.length_map, Listener.length_connPath h,
      Listener.length_connPath h'])
    rw [← pieces_connID h, ← pieces_connID h'] at heq
    exact hne (bytesOf_inj h h' (by rw [← pieces_flatten (bytesOf id), heq, pieces_flatten]))
  exact (separate_iff (connID_isName h) (connID_isName h')).2
    ⟨_, _, placed_connID root h, placed_connID root h', hapart h h' hne, hapart h' h hne.symm⟩

end

/-- **In every run of the Listener, whoever comes and goes**, the subtree of an engaged tunnel is where the Listener's
path for its id says, and every other subtree there is has a conn-id of its own and is separate from it: a reap of the
tunnel leaves it, the root and every other marker. -/
theorem tunnel_subtrees_separate (root : List UInt8) (threshold : Int) (ls : List Listener.Label) (s : Listener.State)
    (hr : Machine.run (Listener.step threshold) .start ls = some s) (n : Nat) (k : Listener.Tunnel)
    (hk : s.tunnels[n]? = some k) :
    (∃ hn, clean (connPath root (bytesOf k.id)) = (clean root).below ((Listener.connPath k.id).map bytesOf) hn) ∧
    ∀ p, (s.trees p).isSome = true → p ≠ Listener.connPath k.id →
      ∃ id, p = Listener.connPath id ∧ Separate root (bytesOf k.id) (bytesOf id) ∧
        ∀ (files : List Cleaned) (x : Cleaned), x ∈ files → Spared root (bytesOf k.id) (bytesOf id) x →
          x ∈ reapWhenDone root (bytesOf k.id) files := by
  have hshaped := (Listener.Inv.of_run hr).shaped
  have hid := hshaped.tunnels n k hk
  refine ⟨connPath_connID root hid, fun p hp hne => ?_⟩
  obtain ⟨id, hid', rfl⟩ := hshaped.trees p hp
  have hs := separate_connIDs root hid hid' (fun heq => hne (by rw [heq]))
  exact ⟨id, rfl, hs, fun files x hx hsp => hs.reap (connID_isName hid) (connID_isName hid') hx hsp⟩

/-- Beside the tunnel of an arrival, a second initiator has made its subtree. -/
theorem tunnel_subtrees_separate_arrival :
    ∃ s k, Machine.run (Listener.step 10) .start
        (Listener.arrival ++ [.dial "00000000000000000000000000000001", .dialer 1 (.mkdir 6)]) = some s ∧
      s.tunnels[0]? = some k ∧ ∃ id, Listener.connPath "00000000000000000000000000000001" = Listener.connPath id ∧
        Separate [47, 114] (bytesOf k.id) (bytesOf id) := by
  have h : (Machine.run (Listener.step 10) .start
      (Listener.arrival ++ [.dial "00000000000000000000000000000001", .dialer 1 (.mkdir 6)])).map
        (fun s => (s.tunnels, (s.trees (Listener.connPath "00000000000000000000000000000001")).isSome)) =
      some ([⟨"0123456789abcdef0123456789abcdef", .live true, false⟩], true) := by decide +kernel
  obtain ⟨s, hs, hst⟩ := Option.map_eq_some_iff.1 h
  obtain ⟨ht, hp⟩ := Prod.mk.inj hst
  have hk : s.tunnels[0]? = some ⟨"0123456789abcdef0123456789abcdef", .live true, false⟩ := by rw [ht]; rfl
  obtain ⟨id, hid, hsep, -⟩ := (tunnel_subtrees_separate [47, 114] 10 _ s hs 0 _ hk).2 _ hp (by decide +kernel)
  exact ⟨s, _, hs, hk, id, hid, hsep⟩

end Inbox
end Ccb
