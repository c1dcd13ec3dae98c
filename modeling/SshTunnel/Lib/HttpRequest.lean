import SshTunnel.Lib.Lines
import SshTunnel.Lib.URLRound

/-!
# Requests (Go's package `net/http`)

What a server makes of the text of a request: `http.ReadRequest` and the checks of
the server behind it, as far as the method, the url and the host depend on them. A
header line that is folded is not read.
-/

namespace SshTunnel.Lib.Http

open Net (Text)
open Lines
open Url (cut URL emptyURL getScheme isCTL parseMain)

def isTokenChar (c : Char) : Bool := c.isAlphanum || c ∈ "!#$%&'*+-.^_`|~".toList

def isToken (t : Text) : Bool := t ≠ [] && t.all isTokenChar

/-- The characters of `httpguts.ValidHostHeader`. -/
def validHostChar (c : Char) : Bool := c.isAlphanum || c ∈ "!$%&()*+,-.:;=[']_~".toList

def isBlank (c : Char) : Bool := c = ' ' || c = '\t'

def trimLeft (t : Text) : Text := t.dropWhile isBlank

def trim (t : Text) : Text := (trimLeft (trimLeft t).reverse).reverse

/-- The major and the minor version. -/
def parseHTTPVersion : Text → Option (ℕ × ℕ)
  | ['H', 'T', 'T', 'P', '/', major, '.', minor] =>
    if major.isDigit && minor.isDigit then some (major.toNat - 48, minor.toNat - 48) else none
  | _ => none

/-- The method, the target and the version. -/
def parseRequestLine (line : Text) : Option (Text × Text × Text) :=
  let rest := (cut ' ' line).2
  if ' ' ∈ line ∧ ' ' ∈ rest then some ((cut ' ' line).1, (cut ' ' rest).1, (cut ' ' rest).2)
  else none

/-- `url.ParseRequestURI`: an absolute url or an absolute path. -/
def parseRequestURI (rawURL : Text) : Option URL :=
  if rawURL.any isCTL then none
  else if rawURL.head? = some '/' then
    { emptyURL with
      forceQuery := rawURL.getLast? = some '?' && rawURL.count '?' = 1
      rawQuery := (cut '?' rawURL).2 }.setPath (cut '?' rawURL).1
  else if rawURL = ['*'] then parseMain rawURL
  else
    match getScheme rawURL with
    | some (_ :: _, _) => parseMain rawURL
    | _ => none

def connect : Text := "CONNECT".toList

/-- The target of `CONNECT` is a host and a port. -/
def requestURL (method target : Text) : Option URL :=
  if method = connect ∧ target.head? ≠ some '/' then
    (parseRequestURI ("http://".toList ++ target)).map fun url => { url with scheme := [] }
  else parseRequestURI target

def headerOf (line : Text) : Option (Text × Text) :=
  let key := (cut ':' (trim line)).1
  let value := trimLeft (cut ':' (trim line)).2
  if line.head?.any isBlank ∨ ':' ∉ line ∨ ¬isToken key ∨
      ¬value.all (fun c => !isCTL c || c = '\t') then none
  else some (key, value)

structure Request where
  method : Text
  url : URL
  host : Text

/-- The request with the values of its `Host` lines. -/
def withHost (method : Text) (url : URL) (minor : ℕ) : List Text → Option Request
  | [] => if minor = 0 ∨ method = connect then some ⟨method, url, url.host⟩ else none
  | [host] =>
    if host.all validHostChar then
      some ⟨method, url, if url.host = [] then host else url.host⟩
    else none
  | _ => none

def hostValues (header : List (Text × Text)) : List Text :=
  (header.filter fun h => h.1.map Char.toLower = "host".toList).map Prod.snd

def readHead (line : Text) (header : List Text) : Option Request :=
  match parseRequestLine line with
  | none => none
  | some (method, target, proto) =>
    match parseHTTPVersion proto, requestURL method target, header.mapM headerOf with
    | some (major, minor), some url, some header =>
      if isToken method ∧ major = 1 then withHost method url minor (hostValues header) else none
    | _, _, _ => none

def readRequest (t : Text) : Option Request :=
  match (splitLines t).1.map dropCR with
  | [] => none
  | line :: rest => if [] ∈ rest then readHead line (rest.takeWhile (· ≠ [])) else none

/-! ### A request with one header line -/

section Plain

variable {method target host : Text}

def plainText (method target host : Text) : Text :=
  method ++ ' ' :: target ++ " HTTP/1.1\r\nHost: ".toList ++ host ++ "\r\n\r\n".toList

theorem notMem_of_all {p : Char → Bool} {t : Text} {c : Char} (h : t.all p = true)
    (hc : p c = false) : c ∉ t := by
  intro hmem
  have hp := List.all_eq_true.mp h c hmem
  rw [hc] at hp
  cases hp

theorem dropCR_concat (l : Text) : dropCR (l ++ ['\r']) = l := by
  rw [dropCR, List.getLast?_concat, if_pos rfl, List.dropLast_concat]

/-- The lines of the text, with the carriage returns. -/
theorem plainText_lines (method target host : Text) :
    plainText method target host =
      [method ++ ' ' :: target ++ " HTTP/1.1\r".toList, "Host: ".toList ++ host ++ ['\r'],
        ['\r']].flatMap fun l => l ++ ['\n'] := by
  simp [plainText]

theorem readLines_plainText (hmethod : '\n' ∉ method) (htarget : '\n' ∉ target)
    (hhost : '\n' ∉ host) :
    (splitLines (plainText method target host)).1.map dropCR =
      [method ++ ' ' :: target ++ " HTTP/1.1".toList, "Host: ".toList ++ host, []] := by
  have hlines : ∀ l ∈ [method ++ ' ' :: target ++ " HTTP/1.1\r".toList,
      "Host: ".toList ++ host ++ ['\r'], ['\r']], '\n' ∉ l := by
    intro l hl
    simp only [List.mem_cons, List.not_mem_nil, or_false] at hl
    rcases hl with rfl | rfl | rfl
    · simp [hmethod, htarget]
    · simp [hhost]
    · decide
  have hfirst : method ++ ' ' :: target ++ " HTTP/1.1\r".toList =
      method ++ ' ' :: target ++ " HTTP/1.1".toList ++ ['\r'] := by simp
  have hlast : dropCR ['\r'] = [] := by decide
  rw [plainText_lines, splitLines_flatMap hlines, List.map_cons, List.map_cons, List.map_cons,
    hfirst, dropCR_concat, dropCR_concat, hlast, List.map_nil]

theorem parseRequestLine_plain (hmethod : ' ' ∉ method) (htarget : ' ' ∉ target) :
    parseRequestLine (method ++ ' ' :: target ++ " HTTP/1.1".toList) =
      some (method, target, "HTTP/1.1".toList) := by
  have hline : method ++ ' ' :: target ++ " HTTP/1.1".toList =
      method ++ ' ' :: (target ++ ' ' :: "HTTP/1.1".toList) := by simp
  rw [hline, parseRequestLine, Url.cut_append hmethod]
  simp only [Url.cut_append htarget]
  rw [if_pos ⟨by simp, by simp⟩]

theorem trim_of_ends {t : Text} {c d : Char} (hc : t.head? = some c) (hd : t.getLast? = some d)
    (hcb : isBlank c = false) (hdb : isBlank d = false) : trim t = t := by
  have hleft : ∀ {s : Text} {e : Char}, s.head? = some e → isBlank e = false → trimLeft s = s := by
    intro s e hs he
    cases s with
    | nil => cases hs
    | cons x s =>
      cases hs
      exact List.dropWhile_cons_of_neg (by simp [he])
  rw [trim, hleft hc hcb, hleft (by rw [List.head?_reverse, hd]) hdb, List.reverse_reverse]

theorem validHostChar_isCTL {c : Char} (h : validHostChar c = true) : isCTL c = false := by
  simp only [validHostChar, Bool.or_eq_true] at h
  rcases h with halnum | hmem
  · exact (Url.clean_alphanum halnum).1
  · have hall : "!$%&()*+,-.:;=[']_~".toList.any isCTL = false := by decide
    exact eq_false_of_ne_true (List.any_eq_false.mp hall c (by simpa using hmem))

theorem validHostChar_isBlank {c : Char} (h : validHostChar c = true) : isBlank c = false := by
  by_contra hb
  simp only [isBlank, Bool.not_eq_false, Bool.or_eq_true, decide_eq_true_eq] at hb
  rcases hb with rfl | rfl <;> revert h <;> decide

theorem trimLeft_blank (host : Text) (h : host.all validHostChar = true) :
    trimLeft (' ' :: host) = host := by
  rw [trimLeft, List.dropWhile_cons_of_pos (by decide)]
  cases host with
  | nil => rfl
  | cons c host =>
    have hc := List.all_eq_true.mp h c List.mem_cons_self
    exact List.dropWhile_cons_of_neg (by simp [validHostChar_isBlank hc])

/-- The value of the header line, with the blank in front of it if there is one. -/
theorem cut_trim_host (hhost : host.all validHostChar = true) :
    cut ':' (trim ("Host: ".toList ++ host)) =
      ("Host".toList, if host = [] then [] else ' ' :: host) := by
  cases hlast : host.getLast? with
  | none =>
    rw [List.getLast?_eq_none_iff.mp hlast]
    decide
  | some d =>
    have hne : host ≠ [] := by
      rintro rfl
      cases hlast
    have hd := validHostChar_isBlank
      (List.all_eq_true.mp hhost d (List.mem_of_getLast? hlast))
    have hend : ("Host: ".toList ++ host).getLast? = some d := by
      rw [List.getLast?_append, hlast]
      rfl
    rw [trim_of_ends (c := 'H') rfl hend (by decide) hd, if_neg hne]
    exact Url.cut_append (s := "Host".toList) (by decide) (' ' :: host)

theorem headerOf_host (hhost : host.all validHostChar = true) :
    headerOf ("Host: ".toList ++ host) = some ("Host".toList, host) := by
  have hvalue : trimLeft (if host = [] then [] else ' ' :: host) = host := by
    split
    · rename_i hnil
      rw [hnil]
      rfl
    · exact trimLeft_blank host hhost
  have hplain : host.all (fun c => !isCTL c || c = '\t') = true := by
    apply List.all_eq_true.mpr
    intro c hc
    rw [validHostChar_isCTL (List.all_eq_true.mp hhost c hc)]
    rfl
  rw [headerOf, cut_trim_host hhost]
  simp only [hvalue, hplain, not_true_eq_false, or_false]
  rw [if_neg]
  intro h
  rcases h with h | h | h
  · cases h
  · exact h (by simp)
  · exact h (by decide)

/-- A request with the header line `Host` alone. -/
theorem readRequest_plainText {url : URL} (hmethod : isToken method = true)
    (htarget : ' ' ∉ target ∧ '\n' ∉ target) (hurl : requestURL method target = some url)
    (hhost : host.all validHostChar = true) :
    readRequest (plainText method target host) =
      some ⟨method, url, if url.host = [] then host else url.host⟩ := by
  have htoken : method.all isTokenChar = true := by
    simp only [isToken, Bool.and_eq_true] at hmethod
    exact hmethod.2
  have hlines := readLines_plainText (notMem_of_all htoken (c := '\n') (by decide)) htarget.2
    (notMem_of_all hhost (c := '\n') (by decide))
  have hline := parseRequestLine_plain (notMem_of_all htoken (c := ' ') (by decide)) htarget.1
  have htake : ["Host: ".toList ++ host, []].takeWhile (· ≠ []) = ["Host: ".toList ++ host] := by
    rw [List.takeWhile_cons_of_pos (by simp), List.takeWhile_cons_of_neg (by simp)]
  have hheader : ["Host: ".toList ++ host].mapM headerOf = some [("Host".toList, host)] := by
    rw [List.mapM_cons, headerOf_host hhost]
    rfl
  have hversion : parseHTTPVersion "HTTP/1.1".toList = some (1, 1) := by decide
  have hvalues : hostValues [("Host".toList, host)] = [host] := by
    have hkey : "Host".toList.map Char.toLower = "host".toList := by decide
    simp only [hostValues, List.filter_cons, hkey, decide_true, if_true, List.filter_nil,
      List.map_cons, List.map_nil]
  rw [readRequest, hlines]
  change (if [] ∈ ["Host: ".toList ++ host, []] then _ else _) = _
  rw [if_pos (by simp), htake, readHead, hline]
  simp only [hversion, hurl, hheader]
  rw [if_pos ⟨hmethod, trivial⟩, hvalues, withHost, if_pos hhost]

end Plain

end SshTunnel.Lib.Http
