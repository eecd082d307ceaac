import Ccb.CarrierAuth
/-!
# Bearer — the token an inside CCB finds is the token it is asked for

An inside CCB finds its token in the places of WLCG bearer token discovery or in a directory of HTCondor tokens
(wscarrier_auth.go), puts it in a header (`Dial` of ws.go), and the outside CCB's `handle` takes it out again and asks
the verifier about it.  What is found is trimmed and not empty, so what the verifier is asked about is what was found.
-/
namespace Ccb

/-! ## Trimming -/

theorem dropWhile_eq_self {α : Type} {p : α → Bool} {l : List α} (h : ∀ a ∈ l.head?, p a = false) :
    l.dropWhile p = l := by
  cases l with
  | nil => rfl
  | cons a l => exact List.dropWhile_cons_of_neg (by rw [h a rfl]; exact Bool.false_ne_true)

theorem head_dropWhile {α : Type} (p : α → Bool) (l : List α) : ∀ a ∈ (l.dropWhile p).head?, p a = false := by
  intro a ha
  have hne : l.dropWhile p ≠ [] := fun hn => by rw [hn] at ha; cases ha
  have := List.head_dropWhile_not p hne
  rwa [List.head_eq_iff_head?_eq_some hne |>.2 ha] at this

/-- What has been trimmed stays as it is: the end that is cut off second leaves the other end alone. -/
theorem trimEnds_trimEnds (p : Char → Bool) (cs : List Char) : trimEnds p (trimEnds p cs) = trimEnds p cs := by
  have hfront : (trimEnds p cs).dropWhile p = trimEnds p cs := by
    refine dropWhile_eq_self (fun a ha => head_dropWhile p cs a ?_)
    obtain ⟨r, hr⟩ : trimEnds p cs <+: cs.dropWhile p := by
      have := List.reverse_prefix.2 (List.dropWhile_suffix p (l := (cs.dropWhile p).reverse))
      rwa [List.reverse_reverse] at this
    rw [← hr, List.head?_append, Option.mem_def.1 ha]
    rfl
  have hback : (trimEnds p cs).reverse.dropWhile p = (trimEnds p cs).reverse := by
    rw [trimEnds, List.reverse_reverse]
    exact dropWhile_eq_self (head_dropWhile p _)
  show (((trimEnds p cs).dropWhile p).reverse.dropWhile p).reverse = _
  rw [hfront, hback, List.reverse_reverse]

theorem trimSpace_trimSpace (s : String) : trimSpace (trimSpace s) = trimSpace s := by
  rw [trimSpace, trimSpace, String.toList_ofList, trimEnds_trimEnds]

namespace CarrierListener

open Machine (run)

/-! ## Discovery -/

/-- The environment of the process: `os.Getenv` (empty where there is no such variable), `os.ReadFile`, `os.ReadDir` (a
name, and whether it is a directory), `os.UserHomeDir`, `os.Getuid` and `filepath.Join`. -/
structure Host where
  getenv   : String → String
  readFile : String → Except String String
  readDir  : String → Except String (List (String × Bool))
  home     : Except String String
  uid      : Nat
  join     : List String → String

section
variable (x : Host)

def lines (data : String) : List String := (data.toList.splitOn '\n').map String.ofList

def orError (e : String) : Option String → Except String String
  | some t => .ok t
  | none   => .error e

/-- The first line that is not blank. -/
def readFirstToken (path : String) : Except String String :=
  (x.readFile path).bind (fun data =>
    orError ("ccbserver: token file " ++ path ++ " is empty") (((lines data).map trimSpace).find? (fun t => t ≠ "")))

/-- Every caller looks only at whether there is an error. -/
def tokenIn (path : String) : Option String := (readFirstToken x path).toOption

def tokenDirs : List String :=
  (if x.getenv "SEC_TOKEN_DIRECTORY" ≠ "" then [x.getenv "SEC_TOKEN_DIRECTORY"] else []) ++
    (x.home.toOption.map (fun home => x.join [home, ".condor", "tokens.d"])).toList ++ ["/etc/condor/tokens.d"]

/-- A directory that cannot be read is passed over. -/
def entries (dir : String) : List (String × Bool) := (x.readDir dir).toOption.getD []

def discoverIDToken : Except String String :=
  orError "ccbserver: no IDTOKEN found in the token directory" ((tokenDirs x).findSome? (fun dir =>
    (entries x dir).findSome?
      (fun e => if e.2 then none else (tokenIn x (x.join [dir, e.1])).filter (fun t => t ≠ ""))))

def noTokenFound : String :=
  "ccbserver: no bearer token found (set BEARER_TOKEN/BEARER_TOKEN_FILE, or place an IDTOKEN in the token directory)"

def bearerFile (uid : Nat) : String := "bt_u" ++ toString uid

def discoverBearerToken : Except String String :=
  if trimSpace (x.getenv "BEARER_TOKEN") ≠ "" then .ok (trimSpace (x.getenv "BEARER_TOKEN"))
  else
    let file := x.getenv "BEARER_TOKEN_FILE"
    match if file ≠ "" then tokenIn x file else none with
    | some t => .ok t
    | none   =>
      let xdg := x.getenv "XDG_RUNTIME_DIR"
      match if xdg ≠ "" then tokenIn x (x.join [xdg, bearerFile x.uid]) else none with
      | some t => .ok t
      | none   =>
        match tokenIn x ("/tmp/" ++ bearerFile x.uid) with
        | some t => .ok t
        | none   => orError noTokenFound (discoverIDToken x).toOption

/-- The entries of a token directory that are files. -/
def tokenFiles (dir : String) : List String := ((entries x dir).filter (fun e => !e.2)).map (fun e => x.join [dir, e.1])

/-- The files a token may be in, in the order in which they are tried. -/
def bearerFiles : List String :=
  (if x.getenv "BEARER_TOKEN_FILE" ≠ "" then [x.getenv "BEARER_TOKEN_FILE"] else []) ++
    (if x.getenv "XDG_RUNTIME_DIR" ≠ "" then [x.join [x.getenv "XDG_RUNTIME_DIR", bearerFile x.uid]] else []) ++
    ["/tmp/" ++ bearerFile x.uid] ++ (tokenDirs x).flatMap (tokenFiles x)

end

section
variable {x : Host}

/-- Loops in a loop are one loop. -/
theorem findSome?_flatMap {α β γ : Type} (f : α → List β) (g : β → Option γ) :
    ∀ l : List α, (l.flatMap f).findSome? g = l.findSome? (fun a => (f a).findSome? g)
  | []     => rfl
  | a :: l => by
    rw [List.flatMap_cons, List.findSome?_append, findSome?_flatMap f g l, List.findSome?_cons]
    cases (f a).findSome? g <;> rfl

/-- A token as it is found. -/
def Clean (t : String) : Prop := t ≠ "" ∧ trimSpace t = t

theorem orError_ok {e t : String} {o : Option String} (h : orError e o = .ok t) : o = some t := by
  cases o with
  | none => cases h
  | some t' => cases h; rfl

theorem toOption_orError (e : String) (o : Option String) : (orError e o).toOption = o := by
  cases o <;> rfl

theorem tokenIn_clean {path t : String} (h : tokenIn x path = some t) : Clean t := by
  unfold tokenIn readFirstToken at h
  cases hread : x.readFile path with
  | error e => rw [hread] at h; cases h
  | ok data =>
    rw [hread] at h
    have hfirst := (toOption_orError _ _).symm.trans h
    obtain ⟨line, -, rfl⟩ := List.mem_map.1 (List.mem_of_find?_eq_some hfirst)
    have hne := List.find?_some hfirst
    exact ⟨of_decide_eq_true hne, trimSpace_trimSpace line⟩

/-- The second look at the token in the loop of `discoverIDToken` finds nothing. -/
theorem tokenIn_filter (path : String) : (tokenIn x path).filter (fun t => t ≠ "") = tokenIn x path := by
  cases h : tokenIn x path with
  | none => rfl
  | some t => exact Option.filter_some_pos (decide_eq_true (tokenIn_clean h).1)

theorem tokenFiles_findSome? (dir : String) : (tokenFiles x dir).findSome? (tokenIn x) =
    (entries x dir).findSome?
      (fun e => if e.2 then none else (tokenIn x (x.join [dir, e.1])).filter (fun t => t ≠ "")) := by
  unfold tokenFiles
  induction entries x dir with
  | nil => rfl
  | cons e es ih =>
    obtain ⟨name, isDir⟩ := e
    cases isDir with
    | true => exact ih
    | false =>
      rw [List.filter_cons_of_pos rfl, List.map_cons, List.findSome?_cons, List.findSome?_cons, ih,
        if_neg Bool.false_ne_true, tokenIn_filter]

theorem discoverIDToken_toOption :
    (discoverIDToken x).toOption = ((tokenDirs x).flatMap (tokenFiles x)).findSome? (tokenIn x) := by
  rw [findSome?_flatMap, discoverIDToken, toOption_orError]
  simp only [tokenFiles_findSome?]

theorem findSome?_ite {α β : Type} (c : Prop) [Decidable c] (a : α) (g : α → Option β) :
    (if c then [a] else []).findSome? g = if c then g a else none := by
  split
  · rw [List.findSome?_singleton]
  · rfl

/-- **The first file that has a token**, unless there is one in the environment. -/
theorem discoverBearerToken_eq (h : trimSpace (x.getenv "BEARER_TOKEN") = "") :
    discoverBearerToken x = orError noTokenFound ((bearerFiles x).findSome? (tokenIn x)) := by
  unfold discoverBearerToken bearerFiles
  rw [if_neg (fun hn => hn h), List.findSome?_append, List.findSome?_append, List.findSome?_append,
    ← discoverIDToken_toOption, findSome?_ite, findSome?_ite, List.findSome?_singleton]
  dsimp only
  cases if x.getenv "BEARER_TOKEN_FILE" ≠ "" then tokenIn x (x.getenv "BEARER_TOKEN_FILE") else none with
  | some t => rfl
  | none =>
    cases if x.getenv "XDG_RUNTIME_DIR" ≠ "" then
        tokenIn x (x.join [x.getenv "XDG_RUNTIME_DIR", bearerFile x.uid]) else none with
    | some t => rfl
    | none => cases tokenIn x ("/tmp/" ++ bearerFile x.uid) <;> rfl

/-! ## From the file to the verifier -/

theorem discoverBearerToken_clean {t : String} (h : discoverBearerToken x = .ok t) : Clean t := by
  by_cases he : trimSpace (x.getenv "BEARER_TOKEN") = ""
  · rw [discoverBearerToken_eq he] at h
    obtain ⟨path, -, hpath⟩ := List.exists_of_findSome?_eq_some (orError_ok h)
    exact tokenIn_clean hpath
  · rw [discoverBearerToken, if_pos he] at h
    cases h
    exact ⟨he, trimSpace_trimSpace _⟩

/-- What `Dial` is given: the outside CCB, and a token or where to get one. -/
structure DialConfig where
  url         : String
  token       : String
  tokenSource : Option (Except String String)

/-- The token of `Dial`, up to the handshake. -/
def DialConfig.chosen (cfg : DialConfig) : Except String String :=
  if cfg.url = "" then .error "wscarrier: DialConfig.URL is required"
  else if cfg.token = "" then
    match cfg.tokenSource with
    | none            => .ok ""
    | some (.ok t)    => .ok t
    | some (.error e) => .error ("wscarrier: token source: " ++ e)
  else .ok cfg.token

theorem DialConfig.chosen_source {cfg : DialConfig} {r : Except String String} {t : String} (hnone : cfg.token = "")
    (hsource : cfg.tokenSource = some r) (h : cfg.chosen = .ok t) : r = .ok t := by
  by_cases hurl : cfg.url = ""
  · rw [DialConfig.chosen, if_pos hurl] at h
    cases h
  · rw [DialConfig.chosen, if_neg hurl, if_pos hnone, hsource] at h
    cases r with
    | error e => cases h
    | ok t' => cases h; rfl

/-- The `Authorization` header of `Dial`; none is an empty one. -/
def authorization (token : String) : String := if token = "" then "" else "Bearer " ++ token

/-- **What `Dial` puts in, `handle` takes out**, but for the blanks around it. -/
theorem bearerToken_authorization (token : String) : bearerToken (authorization token) = trimSpace token := by
  unfold authorization
  split
  · rename_i he
    subst he
    rfl
  · rename_i hne
    have hlist : ("Bearer " ++ token).toList = "Bearer ".toList ++ token.toList := String.toList_append
    have hlen : 0 < token.toList.length := by
      refine List.length_pos_iff.2 (fun hn => hne ?_)
      rw [← String.ofList_toList (s := token), hn]
    unfold bearerToken
    rw [hlist]
    dsimp only
    have hseven : "Bearer ".toList.length = 7 := by decide
    rw [if_pos, List.drop_left' hseven, String.ofList_toList]
    refine ⟨?_, ?_⟩
    · rw [List.length_append, hseven]
      exact Nat.lt_add_of_pos_right hlen
    · rw [List.take_left' hseven]
      decide

end

/-! ## What the verifier is asked -/

def State.headerOf (s : State) (h : Nat) : Option String := (s.handlers[h]?).map Handler.header

section
variable {s t : State} {l : Label}

/-- What a step does to the requests: none of them, a new one, or one that keeps its header. -/
inductive Requests (s t : State) : Prop
  | same : t.handlers = s.handlers → Requests s t
  | new (header : String) : t.handlers = s.handlers ++ [{ header := header }] → Requests s t
  | moves (h : Nat) (x x' : Handler) : s.handlers[h]? = some x → t.handlers = s.handlers.set h x' →
      x'.header = x.header → Requests s t

theorem step_requests (hs : step s l = some t) : Requests s t := by
  cases step_some hs with
  | request header => exact .new header rfl
  | handle h x hx =>
    unfold CarrierListener.handle
    split <;> exact .moves h x _ hx rfl rfl
  | verified h x token ok hx =>
    unfold CarrierListener.verified
    cases ok <;> exact .moves h x _ hx rfl rfl
  | upgraded h x ok hx =>
    unfold CarrierListener.upgraded
    cases ok <;> exact .moves h x _ hx rfl rfl
  | handOver h x p hx => exact .moves h x _ hx rfl rfl
  | leave h x p hx => exact .moves h x _ hx rfl rfl
  | release h x p y hx => exact .moves h x _ hx rfl rfl
  | served p ok =>
    unfold CarrierListener.served
    cases ok <;> exact .same rfl
  | _ => exact .same rfl

theorem step_verdicts (hs : step s l = some t) : t.verdicts = s.verdicts ∨
    ∃ h x token ok, s.handlers[h]? = some x ∧ x.pc = .verify token ∧ t.verdicts = s.verdicts ++ [(h, token, ok)] := by
  cases step_some hs with
  | verified h x token ok hx hpc => exact .inr ⟨h, x, token, ok, hx, hpc, rfl⟩
  | handle h x =>
    unfold CarrierListener.handle
    split <;> exact .inl rfl
  | upgraded h x ok =>
    unfold CarrierListener.upgraded
    cases ok <;> exact .inl rfl
  | served p ok =>
    unfold CarrierListener.served
    cases ok <;> exact .inl rfl
  | _ => exact .inl rfl

theorem headerOf_step (hs : step s l = some t) {h : Nat} {header : String} (hh : s.headerOf h = some header) :
    t.headerOf h = some header := by
  obtain ⟨x, hx, rfl⟩ := Option.map_eq_some_iff.1 hh
  cases step_requests hs with
  | same he => rw [State.headerOf, he, hx]; rfl
  | new header he => rw [State.headerOf, he, getElem?_concat_left hx]; rfl
  | moves h' y y' hy he hhead =>
    rw [State.headerOf, he]
    by_cases hne : h' = h
    · subst hne
      rw [hx] at hy
      cases hy
      rw [List.getElem?_set_self (List.getElem?_eq_some_iff.1 hx).1, Option.map_some, hhead]
    · rw [List.getElem?_set_ne hne, hx]
      rfl

/-- **A verdict is on the token of its request.** -/
def Asked (s : State) : Prop :=
  ∀ h token ok, (h, token, ok) ∈ s.verdicts → ∃ header, s.headerOf h = some header ∧ token = bearerToken header

theorem Asked.step (h : Asked s) (ha : Auth s) (hs : CarrierListener.step s l = some t) : Asked t := by
  intro i token ok hv
  have hold : (i, token, ok) ∈ s.verdicts → ∃ header, t.headerOf i = some header ∧ token = bearerToken header := by
    intro hv
    obtain ⟨header, hh, htok⟩ := h i token ok hv
    exact ⟨header, headerOf_step hs hh, htok⟩
  rcases step_verdicts hs with he | ⟨j, x, token', ok', hx, hpc, he⟩
  · exact hold (he ▸ hv)
  · rw [he] at hv
    rcases List.mem_append.1 hv with hv | hv
    · exact hold hv
    · cases List.mem_singleton.1 hv
      have hok := ha.handler i x hx
      rw [HandlerOk, hpc] at hok
      refine ⟨x.header, headerOf_step hs ?_, hok.1⟩
      rw [State.headerOf, hx]
      rfl

end

/-- **The verifier is asked about the token that was found**: over every run of the listener, for a request dialed with
the token of `discoverBearerToken`. -/
theorem asked_as_found (inner : Inner) (ls : List Label) (s : State) (hr : run step (.start inner) ls = some s)
    (x : Host) (cfg : DialConfig) (t : String) (hnone : cfg.token = "")
    (hsource : cfg.tokenSource = some (discoverBearerToken x)) (hdial : cfg.chosen = .ok t) (h : Nat)
    (token : String) (ok : Bool) (hv : (h, token, ok) ∈ s.verdicts) (hh : s.headerOf h = some (authorization t)) :
    token = t ∧ t ≠ "" := by
  have hasked : Kept s ∧ Asked s := Machine.inv_of_step (I := fun s => Kept s ∧ Asked s)
    (fun s l t hk hs => ⟨hk.1.step hs, hk.2.step hk.1.auth hs⟩) ls _ s
    ⟨.start inner, fun h token ok hv => by cases hv⟩ hr
  obtain ⟨header, hhead, htok⟩ := hasked.2 h token ok hv
  cases hhead.symm.trans hh
  have hclean := discoverBearerToken_clean (DialConfig.chosen_source hnone hsource hdial)
  rw [htok, bearerToken_authorization, hclean.2]
  exact ⟨rfl, hclean.1⟩

/-- Two tokens in the file that the environment names. -/
def tokenHost : Host where
  getenv v := if v = "BEARER_TOKEN_FILE" then "/run/token" else ""
  readFile path := if path = "/run/token" then .ok "\n secret \nother\n" else .error "no such file"
  readDir _ := .error "no such directory"
  home := .error "no home"
  uid := 1000
  join := String.intercalate "/"

def tokenDial : DialConfig := ⟨"wss://outside:9618/ccb", "", some (discoverBearerToken tokenHost)⟩

/-- The verifier has turned down what was dialed with. -/
def turnedDown : List Label := [.request (authorization "secret"), .handle 0, .verified 0 false]

theorem asked_as_found_secret : tokenDial.chosen = .ok "secret" ∧
    ∃ s, run step (.start (.ws "outside:9618" defaultPath true)) turnedDown = some s ∧
      s.verdicts = [(0, "secret", false)] ∧ ∀ token ok, (0, token, ok) ∈ s.verdicts → token = "secret" := by
  have hdial : tokenDial.chosen = .ok "secret" := rfl
  obtain ⟨s, hs⟩ : ∃ s, run step (.start (.ws "outside:9618" defaultPath true)) turnedDown = some s :=
    Option.isSome_iff_exists.1 (by decide)
  have hseen : (run step (.start (.ws "outside:9618" defaultPath true)) turnedDown).map
      (fun s => (s.verdicts, s.headerOf 0)) = some ([(0, "secret", false)], some (authorization "secret")) := by decide
  simp only [hs, Option.map_some, Option.some.injEq, Prod.mk.injEq] at hseen
  refine ⟨hdial, s, hs, hseen.1, fun token ok hv => ?_⟩
  exact (asked_as_found _ _ s hs tokenHost tokenDial "secret" rfl rfl hdial 0 token ok hv hseen.2).1

end CarrierListener
end Ccb
