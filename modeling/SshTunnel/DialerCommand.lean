import SshTunnel.AddDialer
import SshTunnel.Lib.URLRound

/-!
# The add-dialer command (`commands/dialer.go:21-54`)

The command splits its argument at commas, writes a user into every url that has
none and joins the urls with commas; the daemon splits and parses the text again.
Since `URL.String` leaves a comma as it is, a user with an encoded comma makes two
urls of one.
-/

namespace SshTunnel.DialerCommand

open Lib.Net (Text)
open Lib.HostPort (port)
open Lib.Url
open Connector (SSHAddress)
open Dialers (ssh withScheme pieces pieces_intercalate not_socks5_intercalate sshAddress addDialer
  addDialer_addresses addDialer_addresses_none accepted)

/-- A text of the operating system, which is a string of bytes. -/
abbrev ByteText := {s : Text // IsBytes s}

/-- The variables `USERNAME` and `LOGNAME`, empty where they are not set. -/
structure Environ where
  username : ByteText
  logname : ByteText

def Environ.user (e : Environ) : ByteText := if e.username.val = [] then e.logname else e.username

def username (u : URL) : Text := (u.user.map (·.username)).getD []

section Command

variable (e : Environ)

def withUser (u : URL) : URL :=
  if u.user = none ∨ username u = [] then { u with user := some ⟨e.user.val, none⟩ } else u

/-- The urls of the pieces; `none` when one does not parse and the process exits. -/
def uris : List Text → Option (List Text)
  | [] => some []
  | part :: parts =>
    match parse (withScheme part) with
    | none => none
    | some sshURL => (uris parts).map ((withUser e sshURL).string :: ·)

def execute (sshServer : Text) : Option Text :=
  if "socks5://".toList <+: sshServer then some sshServer
  else (uris e (sshServer.splitOn ',')).map ([','].intercalate ·)

def userinfo (u : URL) : Userinfo :=
  match u.user with
  | some v => if v.username = [] then ⟨e.user.val, none⟩ else v
  | none => ⟨e.user.val, none⟩

def expected (u : URL) : SSHAddress :=
  ⟨(userinfo e u).username, if port u.host = [] then u.host ++ ":22".toList else u.host⟩

/-- No comma is written for the url, its zone can be read again, and a url without
an authority, which has no place for a user, needs none. -/
structure Kept (u : URL) : Prop where
  commas : SeparatorFree ',' (userinfo e u) u
  zone : ZoneKept u.host
  rootless : u.opaquePart ≠ [] → e.user.val = []

end Command

/-- `url.Parse`, as far as the daemon reads the url. -/
def toDialers (u : URL) : Dialers.URL := ⟨u.scheme, username u, u.host, port u.host⟩

def daemonEnv {Conn : Type} (env : Dialers.Env Conn) : Dialers.Env Conn :=
  { env with parseURL := fun uri => (parse uri).map toDialers }

theorem daemonEnv_parseURL {Conn : Type} (env : Dialers.Env Conn) (uri : Text) :
    (daemonEnv env).parseURL uri = (parse uri).map toDialers := rfl

/-- The daemon finds as many pieces as there are urls, and appends their addresses. -/
structure SameList {Conn : Type} (env : Dialers.Env Conn) (e : Environ) (loads : Bool)
    (dialerName sent : Text) (s : Dialers.State) (urls : List URL) : Prop where
  split : (pieces sent).length = urls.length
  addresses : (addDialer (daemonEnv env) loads dialerName sent s).1.addresses =
    s.addresses ++ urls.map (expected e)

/-- A piece of the argument and the ssh url that it parses as. -/
def IsPiece (part : Text) (u : URL) : Prop := parse (withScheme part) = some u ∧ u.scheme = ssh

/-! ### One url -/

section One

variable {Conn : Type} {env : Dialers.Env Conn} {e : Environ} {part : Text} {u : URL}

theorem isScheme_ssh : IsScheme ssh := by
  refine ⟨⟨'s', ['s', 'h'], rfl, by decide⟩, ?_⟩
  show ∀ c ∈ ['s', 's', 'h'], isSchemeChar c = true ∧ c.toLower = c
  simp only [List.forall_mem_cons]
  exact ⟨by decide, by decide, by decide, fun c hc => absurd hc List.not_mem_nil⟩

theorem withUser_eq (e : Environ) (u : URL) :
    withUser e u = { u with user := some (userinfo e u) } := by
  unfold withUser userinfo username
  obtain ⟨scheme, opaquePart, user, host, path, rawPath, omitHost, forceQuery, rawQuery, fragment,
    rawFragment⟩ := u
  cases user with
  | none => rfl
  | some v =>
    by_cases hv : v.username = []
    · simp [hv]
    · simp [hv]

theorem userinfo_isBytes (h : ∀ v ∈ u.user, v.IsBytes) : (userinfo e u).IsBytes := by
  have henv : (⟨e.user.val, none⟩ : Userinfo).IsBytes :=
    ⟨e.user.property, fun p hp => (Option.not_mem_none p hp).elim⟩
  unfold userinfo
  cases hu : u.user with
  | none => exact henv
  | some v =>
    dsimp only
    split
    · exact henv
    · exact h v hu

theorem isBytes_withScheme (h : IsBytes part) : IsBytes (withScheme part) := by
  have hssh : IsBytes "ssh://".toList := by decide
  unfold withScheme
  split
  · exact h
  · exact fun c hc => (List.mem_append.mp hc).elim (hssh c) (h c)

theorem comma_withScheme (h : ',' ∉ part) : ',' ∉ withScheme part := by
  have hssh : ',' ∉ "ssh://".toList := by decide
  unfold withScheme
  split
  · exact h
  · exact fun hc => (List.mem_append.mp hc).elim hssh h

theorem mark_withScheme (part : Text) : schemeMark <:+: withScheme part := by
  unfold withScheme
  split
  · assumption
  · exact ⟨"ssh".toList, part, rfl⟩

theorem IsPiece.isScheme (h : IsPiece part u) : IsScheme u.scheme := h.2 ▸ isScheme_ssh

theorem IsPiece.parsed (h : IsPiece part u) (hpart : IsBytes part) : Parsed (withScheme part) u :=
  parse_parsed h.1 (isBytes_withScheme hpart) h.isScheme.ne_nil

theorem IsPiece.not_socks5 (h : IsPiece part u) : ¬"socks5://".toList <+: part := by
  rintro ⟨r, rfl⟩
  have hwith : withScheme ("socks5://".toList ++ r) =
      "socks5".toList ++ ':' :: ('/' :: '/' :: r) := by
    rw [withScheme, if_pos ⟨"socks5".toList, r, rfl⟩]
    rfl
  have hparse := h.1
  rw [hwith] at hparse
  have hscheme := parse_scheme hparse h.isScheme.ne_nil (by decide) (by decide)
  rw [h.2] at hscheme
  revert hscheme
  decide

/-- A rootless url is written without its user. -/
theorem string_withUser_rootless (h : IsPiece part u) (hopaquePart : u.opaquePart ≠ []) :
    (withUser e u).string = u.string := by
  rw [withUser_eq]
  have hwritten := string_rootless (u := { u with user := some (userinfo e u) })
    h.isScheme.ne_nil hopaquePart
  exact hwritten.trans (string_rootless h.isScheme.ne_nil hopaquePart).symm

theorem written_prefix (h : IsPiece part u) (hpart : IsBytes part) :
    ∃ r, (withUser e u).string = ssh ++ ':' :: r := by
  by_cases hopaquePart : u.opaquePart = []
  · rw [withUser_eq, string_user (h.parsed hpart) h.isScheme.ne_nil hopaquePart, h.2]
    exact ⟨_, List.append_assoc _ _ _⟩
  · rw [string_withUser_rootless h hopaquePart, string_rootless h.isScheme.ne_nil hopaquePart, h.2]
    exact ⟨_, List.append_assoc _ _ _⟩

theorem written_not_socks5 (h : IsPiece part u) (hpart : IsBytes part) :
    ¬"socks5://".toList <+: (withUser e u).string := by
  obtain ⟨r, hr⟩ := written_prefix (e := e) h hpart
  rw [hr]
  rintro ⟨t, ht⟩
  have hsecond := congrArg (fun s : Text => s[1]?) ht
  exact absurd (Option.some.inj hsecond) (by decide)

theorem withScheme_written (h : IsPiece part u) (hpart : IsBytes part) :
    withScheme (withUser e u).string = (withUser e u).string := by
  have hmark : schemeMark <:+: (withUser e u).string := by
    by_cases hopaquePart : u.opaquePart = []
    · rw [withUser_eq, string_user (h.parsed hpart) h.isScheme.ne_nil hopaquePart]
      refine ⟨u.scheme, ?_, ?_⟩
      rotate_left
      · simp only [URL.restText, schemeMark, List.append_assoc]
        rfl
    · rw [string_withUser_rootless h hopaquePart]
      exact mark_string h.1 (isBytes_withScheme hpart) h.isScheme.ne_nil hopaquePart
        (mark_withScheme part)
  exact if_pos hmark

/-- What the daemon reads of a text depends on the endpoint of the url only. -/
def addressOf (r : Text × Option Userinfo × Text) : SSHAddress :=
  ⟨(r.2.1.map (·.username)).getD [],
    if port r.2.2 = [] then r.2.2 ++ ":22".toList else r.2.2⟩

theorem sshAddress_some {uri : Text} {r : Text × Option Userinfo × Text}
    (huri : withScheme uri = uri) (h : (parse uri).map URL.endpoint = some r) (hssh : r.1 = ssh) :
    sshAddress (daemonEnv env) uri = .ok (addressOf r) := by
  obtain ⟨v, hv, rfl⟩ := Option.map_eq_some_iff.mp h
  have hurl : (daemonEnv env).parseURL (withScheme uri) = some (toDialers v) := by
    rw [huri, daemonEnv_parseURL, hv, Option.map_some]
  unfold withScheme at hurl
  unfold sshAddress
  simp only [hurl]
  exact if_pos hssh

theorem sshAddress_none {uri : Text} (huri : withScheme uri = uri)
    (h : (parse uri).map URL.endpoint = none) (a : SSHAddress) :
    sshAddress (daemonEnv env) uri ≠ .ok a := by
  have hurl : (daemonEnv env).parseURL (withScheme uri) = none := by
    rw [huri, daemonEnv_parseURL, Option.map_eq_none_iff.mp h, Option.map_none]
  unfold withScheme at hurl
  unfold sshAddress
  simp only [hurl]
  exact fun he => by cases he

/-- The daemon reads the address of the piece exactly if it is kept. -/
theorem sshAddress_written (h : IsPiece part u) (hpart : IsBytes part) :
    sshAddress (daemonEnv env) (withUser e u).string = .ok (expected e u) ↔
      ZoneKept u.host ∧ (u.opaquePart ≠ [] → e.user.val = []) := by
  have hparsed := h.parsed hpart
  have hwith := withScheme_written (e := e) h hpart
  by_cases hopaquePart : u.opaquePart = []
  · obtain ⟨w, hname, hread⟩ := parse_string_user hparsed h.isScheme hopaquePart
      (userinfo_isBytes (e := e) hparsed.user)
    rw [← withUser_eq] at hread
    by_cases hzone : ZoneKept u.host
    · rw [if_pos hzone] at hread
      refine iff_of_true ?_ ⟨hzone, fun hne => absurd hopaquePart hne⟩
      rw [sshAddress_some hwith hread h.2, expected, ← hname]
      rfl
    · rw [if_neg hzone] at hread
      exact iff_of_false (sshAddress_none hwith hread _) fun hkept => hzone hkept.1
  · obtain ⟨-, huser, hhost, -⟩ := parse_rootless h.1 h.isScheme.ne_nil hopaquePart
    have hinfo : userinfo e u = ⟨e.user.val, none⟩ := by rw [userinfo, huser]
    have hread := parse_string_rootless hparsed h.isScheme hopaquePart
    rw [← string_withUser_rootless (e := e) h hopaquePart] at hread
    have hzone : ZoneKept u.host := by
      rw [hhost]
      decide
    rw [sshAddress_some hwith hread h.2, expected, hinfo, hhost, Except.ok.injEq]
    constructor
    · exact fun heq => ⟨hhost ▸ hzone, fun _ => (SSHAddress.mk.inj heq).1.symm⟩
    · rintro ⟨-, hroot⟩
      rw [hroot hopaquePart]
      rfl

theorem comma_written (h : IsPiece part u) (hpart : IsBytes part) (hcomma : ',' ∉ part)
    (hroot : u.opaquePart ≠ [] → e.user.val = []) :
    ',' ∉ (withUser e u).string ↔ SeparatorFree ',' (userinfo e u) u := by
  have hparsed := h.parsed hpart
  have hraw := comma_withScheme hcomma
  by_cases hopaquePart : u.opaquePart = []
  · rw [withUser_eq]
    exact isSeparator_comma.notMem_string_iff hparsed hraw h.isScheme hopaquePart
  · obtain ⟨-, huser, hhost, hpath⟩ := parse_rootless h.1 h.isScheme.ne_nil hopaquePart
    have hinfo : userinfo e u = ⟨[], none⟩ := by rw [userinfo, huser, hroot hopaquePart]
    rw [string_withUser_rootless h hopaquePart,
      isSeparator_comma.notMem_opaque_iff hparsed hraw h.isScheme hopaquePart, hinfo]
    constructor
    · intro hfragment
      refine ⟨List.not_mem_nil, List.not_mem_nil, ?_, ?_, hfragment⟩
      · rw [hhost]
        exact List.not_mem_nil
      · rw [hpath]
        exact fun hmem => absurd hmem List.not_mem_nil
    · exact fun hfree => hfree.fragment

end One

/-! ### All urls -/

section All

variable {Conn : Type} {env : Dialers.Env Conn} {e : Environ} {parts : List Text} {urls : List URL}

theorem uris_eq (h : List.Forall₂ IsPiece parts urls) :
    uris e parts = some (urls.map fun u => (withUser e u).string) := by
  induction h with
  | nil => rfl
  | cons hpiece h ih =>
    rw [uris, hpiece.1]
    simp only [ih, Option.map_some, List.map_cons]

theorem forall_piece (h : List.Forall₂ IsPiece parts urls) :
    (∀ p ∈ parts, ∃ u ∈ urls, IsPiece p u) ∧ ∀ u ∈ urls, ∃ p ∈ parts, IsPiece p u := by
  induction h with
  | nil => exact ⟨fun p hp => absurd hp List.not_mem_nil, fun u hu => absurd hu List.not_mem_nil⟩
  | @cons p u parts urls hpiece h ih =>
    refine ⟨List.forall_mem_cons.mpr ⟨⟨u, List.mem_cons_self, hpiece⟩, fun q hq => ?_⟩,
      List.forall_mem_cons.mpr ⟨⟨p, List.mem_cons_self, hpiece⟩, fun v hv => ?_⟩⟩
    · obtain ⟨v, hv, hqv⟩ := ih.1 q hq
      exact ⟨v, List.mem_cons_of_mem u hv, hqv⟩
    · obtain ⟨q, hq, hqv⟩ := ih.2 v hv
      exact ⟨q, List.mem_cons_of_mem p hq, hqv⟩

theorem execute_eq {argument : Text} (h : List.Forall₂ IsPiece (pieces argument) urls) :
    execute e argument = some ([','].intercalate (urls.map fun u => (withUser e u).string)) := by
  have hsocks : ¬"socks5://".toList <+: argument := by
    have hnot := not_socks5_intercalate (List.splitOn_ne_nil ',' argument) fun p hp => by
      obtain ⟨u, -, hpiece⟩ := (forall_piece h).1 p hp
      exact hpiece.not_socks5
    rwa [List.intercalate_splitOn] at hnot
  rw [execute, if_neg hsocks, ← pieces, uris_eq h, Option.map_some]

theorem pieces_eq_singleton {t : Text} (h : ',' ∉ t) : pieces t = [t] := List.splitOn_eq_singleton h

/-- A piece is a part of the text, without a comma. -/
theorem mem_pieces {t p : Text} (hp : p ∈ pieces t) : p ⊆ t ∧ ',' ∉ p := by
  induction hn : t.length using Nat.strong_induction_on generalizing t with
  | _ n ih =>
    by_cases hmem : ',' ∈ t
    · obtain ⟨a, b, rfl, ha⟩ := List.eq_append_cons_of_mem hmem
      rw [pieces, List.splitOn_append_cons_self_of_not_mem ha] at hp
      rcases List.mem_cons.mp hp with rfl | hp
      · exact ⟨List.subset_append_left p _, ha⟩
      · have hlt : b.length < n := by
          rw [← hn, List.length_append, List.length_cons]
          omega
        obtain ⟨hsub, hcomma⟩ := ih b.length hlt hp rfl
        exact ⟨fun c hc => List.mem_append_right a (List.mem_cons_of_mem ',' (hsub hc)), hcomma⟩
    · rw [pieces_eq_singleton hmem] at hp
      obtain rfl := List.mem_singleton.mp hp
      exact ⟨List.Subset.refl p, hmem⟩

theorem flatMap_pieces {ts : List Text} (h : ∀ t ∈ ts, ',' ∉ t) : ts.flatMap pieces = ts := by
  induction ts with
  | nil => rfl
  | cons t ts ih =>
    obtain ⟨ht, hts⟩ := List.forall_mem_cons.mp h
    rw [List.flatMap_cons, pieces_eq_singleton ht, ih hts, List.singleton_append]

theorem length_le_flatMap_pieces (ts : List Text) : ts.length ≤ (ts.flatMap pieces).length := by
  induction ts with
  | nil => exact Nat.le_refl 0
  | cons t ts ih =>
    have hpos := List.length_pos_of_ne_nil (List.splitOn_ne_nil ',' t)
    rw [List.flatMap_cons, List.length_append, List.length_cons, pieces]
    omega

/-- Texts joined by commas are split into as many only if none has a comma. -/
theorem length_flatMap_pieces_iff (ts : List Text) :
    (ts.flatMap pieces).length = ts.length ↔ ∀ t ∈ ts, ',' ∉ t := by
  refine ⟨fun h => ?_, fun h => by rw [flatMap_pieces h]⟩
  induction ts with
  | nil => exact fun t ht => absurd ht List.not_mem_nil
  | cons t ts ih =>
    rw [List.flatMap_cons, List.length_append, List.length_cons] at h
    have hrest := length_le_flatMap_pieces ts
    have hpos := List.length_pos_of_ne_nil (List.splitOn_ne_nil ',' t)
    rw [← pieces] at hpos
    refine List.forall_mem_cons.mpr ⟨fun hmem => ?_, ih (by omega)⟩
    obtain ⟨a, b, rfl⟩ := List.append_of_mem hmem
    have ha := List.length_pos_of_ne_nil (List.splitOn_ne_nil ',' a)
    have hb := List.length_pos_of_ne_nil (List.splitOn_ne_nil ',' b)
    rw [pieces, List.splitOn_append_cons_self, List.length_append] at h
    omega

theorem accepted_eq_iff {denv : Dialers.Env Conn} (f : URL → Text) (g : URL → SSHAddress) :
    accepted denv (urls.map f) = urls.map g ↔
      ∀ u ∈ urls, sshAddress denv (f u) = .ok (g u) := by
  have hlength : ∀ us : List URL, (accepted denv (us.map f)).length ≤ us.length := by
    intro us
    exact (List.length_filterMap_le _ _).trans_eq (List.length_map f)
  induction urls with
  | nil => exact iff_of_true rfl fun u hu => absurd hu List.not_mem_nil
  | cons u us ih =>
    rw [List.forall_mem_cons]
    refine Iff.trans ?_ (and_congr_right' ih)
    cases ha : sshAddress denv (f u) with
    | error err =>
      refine iff_of_false (fun heq => ?_) fun hall => by cases hall.1
      have hskip : accepted denv ((u :: us).map f) = accepted denv (us.map f) := by
        simp [accepted, ha, Except.toOption]
      have hlen := congrArg List.length (hskip.symm.trans heq)
      have hle := hlength us
      rw [List.length_map, List.length_cons] at hlen
      omega
    | ok a =>
      have hcons : accepted denv ((u :: us).map f) = a :: accepted denv (us.map f) := by
        simp [accepted, ha, Except.toOption]
      rw [hcons, List.map_cons, List.cons_eq_cons, Except.ok.injEq]

structure Pieces (urls : List URL) : Prop where
  nonempty : urls ≠ []
  piece : ∀ u ∈ urls, ∃ part, IsPiece part u ∧ IsBytes part ∧ ',' ∉ part

theorem pieces_of_argument {argument : ByteText}
    (h : List.Forall₂ IsPiece (pieces argument.val) urls) : Pieces urls := by
  refine ⟨?_, fun u hu => ?_⟩
  · rintro rfl
    exact List.splitOn_ne_nil ',' argument.val (List.forall₂_nil_right_iff.mp h)
  · obtain ⟨part, hpart, hu⟩ := (forall_piece h).2 u hu
    obtain ⟨hsub, hcomma⟩ := mem_pieces hpart
    exact ⟨part, hu, fun c hc => argument.property c (hsub hc), hcomma⟩

def joined (e : Environ) (urls : List URL) : Text :=
  [','].intercalate (urls.map fun u => (withUser e u).string)

variable {loads : Bool} {dialerName : Text} {s : Dialers.State}

theorem Pieces.map_ne_nil (h : Pieces urls) {f : URL → Text} : urls.map f ≠ [] :=
  fun hnil => h.nonempty (List.map_eq_nil_iff.mp hnil)

theorem joined_not_socks5 (h : Pieces urls) : ¬"socks5://".toList <+: joined e urls := by
  refine not_socks5_intercalate h.map_ne_nil fun t ht => ?_
  obtain ⟨u, hu, rfl⟩ := List.mem_map.mp ht
  obtain ⟨part, hpiece, hpart, -⟩ := h.piece u hu
  exact written_not_socks5 hpiece hpart

theorem joined_split_iff (h : Pieces urls) :
    (pieces (joined e urls)).length = urls.length ↔ ∀ u ∈ urls, ',' ∉ (withUser e u).string := by
  rw [joined, pieces_intercalate h.map_ne_nil,
    ← List.length_map (f := fun u => (withUser e u).string), length_flatMap_pieces_iff,
    List.forall_mem_map]

theorem pieces_joined (h : Pieces urls) (hfree : ∀ u ∈ urls, ',' ∉ (withUser e u).string) :
    pieces (joined e urls) = urls.map fun u => (withUser e u).string := by
  rw [joined, pieces_intercalate h.map_ne_nil]
  exact flatMap_pieces (List.forall_mem_map.mpr hfree)

theorem joined_addresses_iff (h : Pieces urls)
    (hfree : ∀ u ∈ urls, ',' ∉ (withUser e u).string) :
    (addDialer (daemonEnv env) loads dialerName (joined e urls) s).1.addresses =
        s.addresses ++ urls.map (expected e) ↔
      (s.sshDialer.isSome = true ∨ loads = true) ∧
        ∀ u ∈ urls, ZoneKept u.host ∧ (u.opaquePart ≠ [] → e.user.val = []) := by
  have hsocks := joined_not_socks5 (e := e) h
  rw [← Bool.or_eq_true, ← Registry.makeSSHDialer_isSome s loads]
  cases hd : (s.makeSSHDialer loads).sshDialer with
  | none =>
    rw [addDialer_addresses_none (daemonEnv env) dialerName hsocks hd]
    refine iff_of_false (fun hnil => ?_) fun hsome => by cases hsome.1
    exact h.nonempty (List.map_eq_nil_iff.mp (List.append_eq_nil_iff.mp hnil.symm).2)
  | some d =>
    rw [addDialer_addresses (daemonEnv env) dialerName hsocks hd, pieces_joined h hfree,
      List.append_cancel_left_eq, accepted_eq_iff]
    refine Iff.trans ?_ (and_iff_right rfl).symm
    refine forall₂_congr fun u hu => ?_
    obtain ⟨part, hpiece, hpart, -⟩ := h.piece u hu
    exact sshAddress_written hpiece hpart

theorem kept_iff (h : Pieces urls) :
    (∀ u ∈ urls, Kept e u) ↔ (∀ u ∈ urls, ',' ∉ (withUser e u).string) ∧
      ∀ u ∈ urls, ZoneKept u.host ∧ (u.opaquePart ≠ [] → e.user.val = []) := by
  constructor
  · intro hkept
    refine ⟨fun u hu => ?_, fun u hu => ⟨(hkept u hu).zone, (hkept u hu).rootless⟩⟩
    obtain ⟨part, hpiece, hpart, hcomma⟩ := h.piece u hu
    exact (comma_written hpiece hpart hcomma (hkept u hu).rootless).mpr (hkept u hu).commas
  · rintro ⟨hfree, hread⟩ u hu
    obtain ⟨part, hpiece, hpart, hcomma⟩ := h.piece u hu
    obtain ⟨hzone, hroot⟩ := hread u hu
    exact ⟨(comma_written hpiece hpart hcomma hroot).mp (hfree u hu), hzone, hroot⟩

end All

/-- What the command sends is read as the list of its pieces exactly if the daemon has
an `SSHDialer` and every url is kept. -/
theorem execute_sameList_iff {Conn : Type} (env : Dialers.Env Conn) (e : Environ)
    (argument : ByteText) (urls : List URL)
    (hurls : List.Forall₂ IsPiece (pieces argument.val) urls) (loads : Bool) (dialerName : Text)
    (s : Dialers.State) :
    ∃ sent, execute e argument.val = some sent ∧
      (SameList env e loads dialerName sent s urls ↔
        (s.sshDialer.isSome = true ∨ loads = true) ∧ ∀ u ∈ urls, Kept e u) := by
  have h := pieces_of_argument hurls
  refine ⟨joined e urls, execute_eq hurls, ?_⟩
  rw [kept_iff h]
  constructor
  · intro hsame
    have hfree := (joined_split_iff h).mp hsame.split
    obtain ⟨hmade, hread⟩ := (joined_addresses_iff h hfree).mp hsame.addresses
    exact ⟨hmade, hfree, hread⟩
  · rintro ⟨hmade, hfree, hread⟩
    exact ⟨(joined_split_iff h).mpr hfree, (joined_addresses_iff h hfree).mpr ⟨hmade, hread⟩⟩

section Example

def loginEnviron : Environ := ⟨⟨[], by decide⟩, ⟨"v".toList, by decide⟩⟩

def plainURL (user : Option Userinfo) (host : Text) : URL :=
  { emptyURL with scheme := ssh, user := user, host := host }

def twoHosts : ByteText := ⟨"u@h,ssh://h:2222".toList, by decide⟩

def twoURLs : List URL :=
  [plainURL (some ⟨"u".toList, none⟩) "h".toList, plainURL none "h:2222".toList]

theorem twoHosts_pieces : List.Forall₂ IsPiece (pieces twoHosts.val) twoURLs := by
  have hpieces : pieces twoHosts.val = ["u@h".toList, "ssh://h:2222".toList] := by decide
  rw [hpieces]
  exact .cons ⟨by decide +kernel, rfl⟩ (.cons ⟨by decide +kernel, rfl⟩ .nil)

theorem plainURL_kept {user : Option Userinfo} {host : Text}
    (hcommas : ',' ∉ (userinfo loginEnviron (plainURL user host)).username ∧
      ',' ∉ (userinfo loginEnviron (plainURL user host)).password.getD [] ∧ ',' ∉ host)
    (hzone : ZoneKept host) : Kept loginEnviron (plainURL user host) where
  commas := ⟨hcommas.1, hcommas.2.1, hcommas.2.2, fun h => absurd h List.not_mem_nil,
    fun h => absurd h List.not_mem_nil⟩
  zone := hzone
  rootless h := absurd rfl h

theorem twoHosts_sameList : ∃ sent, execute loginEnviron twoHosts.val = some sent ∧
    SameList Dialers.sampleEnv loginEnviron true [] sent Dialers.init twoURLs := by
  obtain ⟨sent, hsent, hsame⟩ := execute_sameList_iff Dialers.sampleEnv loginEnviron twoHosts
    twoURLs twoHosts_pieces true [] Dialers.init
  refine ⟨sent, hsent, hsame.mpr ⟨.inr rfl, ?_⟩⟩
  exact List.forall_mem_cons.mpr ⟨plainURL_kept (by decide) (by decide),
    List.forall_mem_singleton.mpr (plainURL_kept (by decide) (by decide))⟩

def commaUser : ByteText := ⟨"a%2Cb@h".toList, by decide⟩

def commaURLs : List URL := [plainURL (some ⟨"a,b".toList, none⟩) "h".toList]

theorem commaUser_pieces : List.Forall₂ IsPiece (pieces commaUser.val) commaURLs := by
  have hpieces : pieces commaUser.val = ["a%2Cb@h".toList] := by decide
  rw [hpieces]
  exact .cons ⟨by decide +kernel, rfl⟩ .nil

/-- The user `a,b` makes an address for the host `a` and one for the user `b`. -/
theorem comma_in_user_splits :
    ¬∀ (env : Dialers.Env Unit) (e : Environ) (argument : ByteText) (urls : List URL)
      (loads : Bool) (dialerName : Text) (s : Dialers.State),
      List.Forall₂ IsPiece (pieces argument.val) urls →
      (s.sshDialer.isSome = true ∨ loads = true) →
      ∃ sent, execute e argument.val = some sent ∧ SameList env e loads dialerName sent s urls := by
  intro hall
  obtain ⟨sent, hsent, hsame⟩ := hall Dialers.sampleEnv loginEnviron commaUser commaURLs true []
    Dialers.init commaUser_pieces (.inr rfl)
  have hexecute : execute loginEnviron commaUser.val = some "ssh://a,b@h".toList := by
    decide +kernel
  obtain rfl := Option.some.inj (hexecute.symm.trans hsent)
  have hlen := congrArg List.length hsame.addresses
  revert hlen
  decide +kernel

end Example

end SshTunnel.DialerCommand
