import TableGate.Connection.Registry
import TableGate.Proofs.Text.Pieces
import TableGate.Proofs.Text.Quoted

/-! # What of a password is shown

A URL that may be shown hides the password up to the first at sign. What follows in it is shown with the host, and two
passwords that differ there are told apart. -/

namespace TableGate

namespace Text

theorem after?_append (opening rest : List Char) : after? opening (opening ++ rest) = some rest := by
  induction opening with
  | nil => rfl
  | cons o os ih => rw [List.cons_append, after?, if_pos rfl, ih]

/-- A text is cut at a separator whose first character does not stand before it. -/
theorem cutAt?_append {m : Char} {ms front : List Char} (h : m ∉ front) (rest : List Char) :
    cutAt? (m :: ms) (front ++ (m :: ms ++ rest)) = some (front, rest) := by
  induction front with
  | nil => rw [List.nil_append, List.cons_append, cutAt?, ← List.cons_append, after?_append]
  | cons c front ih =>
      rw [List.mem_cons, not_or] at h
      rw [List.cons_append, cutAt?, after?, if_neg h.1, ih h.2]
      rfl

end Text

namespace Url

/-- A URL with the name of a user and a password. -/
def withPassword (scheme user password host : String) : String :=
  scheme ++ "://" ++ user ++ ":" ++ password ++ "@" ++ host

/-- The part of a password that is shown. -/
def shownPart (password : String) : List Char :=
  password.toList.dropWhile (· != '@')

variable {scheme user host : String}

theorem exists_shownPart (password host : String) :
    ∃ tail, shownPart password ++ '@' :: host.toList = '@' :: tail := by
  cases hpart : shownPart password with
  | nil => exact ⟨host.toList, rfl⟩
  | cons c rest =>
      have hhead := List.head?_dropWhile_not (· != '@') password.toList
      rw [shownPart] at hpart
      rw [hpart] at hhead
      obtain rfl : c = '@' := by simpa using hhead
      exact ⟨rest ++ '@' :: host.toList, rfl⟩

/-- The password is hidden up to its first at sign. -/
theorem redacted_withPassword (hscheme : ':' ∉ scheme.toList) (huser : ':' ∉ user.toList) (huser' : '@' ∉ user.toList)
    (password : String) : redacted (withPassword scheme user password host) =
      String.ofList (scheme.toList ++ [':', '/', '/'] ++ user.toList ++ [':', '*', '*', '*'] ++
        (shownPart password ++ '@' :: host.toList)) := by
  obtain ⟨tail, htail⟩ := exists_shownPart password host
  have hchars : (withPassword scheme user password host).toList =
      scheme.toList ++ ([':', '/', '/'] ++ ((user.toList ++ ':' :: password.toList.takeWhile (· != '@')) ++
        '@' :: tail)) := by
    have hpassword : password.toList.takeWhile (· != '@') ++ (shownPart password ++ '@' :: host.toList) =
        password.toList ++ '@' :: host.toList := by
      rw [← List.append_assoc, shownPart, List.takeWhile_append_dropWhile]
    simp [withPassword, String.toList_append, ← htail, hpassword]
  have hcredentials : '@' ∉ user.toList ++ ':' :: password.toList.takeWhile (· != '@') := by
    simp only [List.mem_append, List.mem_cons, Char.reduceEq, false_or, not_or]
    exact ⟨huser', fun hmem => by simpa using List.all_eq_true.mp List.all_takeWhile _ hmem⟩
  rw [redacted, redactedChars, hchars, Text.cutAt?_append hscheme]
  simp only [Text.cut?_append (Text.beq_eq_false_of_notMem hcredentials) (beq_self_eq_true '@'),
    Text.cut?_append (Text.beq_eq_false_of_notMem huser) (beq_self_eq_true ':')]
  rw [htail]
  simp

/-- The shown forms of two URLs that differ in their passwords are the same if the same part of these is shown. -/
theorem redacted_eq_iff (hscheme : ':' ∉ scheme.toList) (huser : ':' ∉ user.toList) (huser' : '@' ∉ user.toList)
    (p q : String) :
    redacted (withPassword scheme user p host) = redacted (withPassword scheme user q host) ↔
      shownPart p = shownPart q := by
  rw [redacted_withPassword hscheme huser huser', redacted_withPassword hscheme huser huser',
    String.ofList_inj, List.append_right_inj, List.append_left_inj]

/-- The dialect of a URL, or the complaint about it, has nothing to do with the password. -/
theorem dialect?_withPassword (hscheme : ':' ∉ scheme.toList) (p q : String) :
    dialect? (withPassword scheme user p host) = dialect? (withPassword scheme user q host) := by
  have hcut (password : String) : Text.cut? (· == ':') (withPassword scheme user password host).toList =
      some (scheme.toList, ['/', '/'] ++ user.toList ++ [':'] ++ password.toList ++ ['@'] ++ host.toList) := by
    have hchars : (withPassword scheme user password host).toList =
        scheme.toList ++ ':' :: (['/', '/'] ++ user.toList ++ [':'] ++ password.toList ++ ['@'] ++ host.toList) := by
      simp [withPassword, String.toList_append]
    rw [hchars, Text.cut?_append (Text.beq_eq_false_of_notMem hscheme) (beq_self_eq_true ':')]
  simp only [dialect?, hcut]

/-- The description of a connection says no more and no less of its password than the shown form of its URL. -/
theorem shown_eq_iff (c : Connection) (url other : String) :
    Connection.shown { c with url := url } = Connection.shown { c with url := other } ↔
      redacted url = redacted other := by
  unfold Connection.shown
  dsimp only
  constructor
  · intro h
    iterate 5 replace h := (String.append_left_inj _).mp h
    exact Text.quoted_injective ((String.append_right_inj _).mp h)
  · intro h
    rw [h]

/-- Of two passwords in otherwise equal URLs, the part from the first at sign on is shown and no other part: in a line
with the shown form of the URL and in the description of a connection. What is said about the dialect shows nothing. -/
theorem shown_by_password_iff (hscheme : ':' ∉ scheme.toList) (huser : ':' ∉ user.toList) (huser' : '@' ∉ user.toList)
    (p q : String) :
    (∀ front back, front ++ redacted (withPassword scheme user p host) ++ back =
      front ++ redacted (withPassword scheme user q host) ++ back ↔ shownPart p = shownPart q) ∧
    (∀ c : Connection, Connection.shown { c with url := withPassword scheme user p host } =
      Connection.shown { c with url := withPassword scheme user q host } ↔ shownPart p = shownPart q) ∧
    dialect? (withPassword scheme user p host) = dialect? (withPassword scheme user q host) := by
  refine ⟨fun front back => ?_, fun c => ?_, dialect?_withPassword hscheme p q⟩
  · rw [String.append_left_inj, String.append_right_inj, redacted_eq_iff hscheme huser huser']
  · rw [shown_eq_iff, redacted_eq_iff hscheme huser huser']

/-- Passwords without an at sign are hidden, and of others the rest is shown. -/
theorem shown_by_password_root :
    (':' ∉ "mysql".toList ∧ ':' ∉ "root".toList ∧ '@' ∉ "root".toList) ∧
      redacted (withPassword "mysql" "root" "a" "db/app") = redacted (withPassword "mysql" "root" "b:c" "db/app") ∧
      redacted (withPassword "mysql" "root" "a@b" "db/app") ≠
        redacted (withPassword "mysql" "root" "a@c" "db/app") := by
  have hseparators : ':' ∉ "mysql".toList ∧ ':' ∉ "root".toList ∧ '@' ∉ "root".toList := by decide
  obtain ⟨hscheme, huser, huser'⟩ := hseparators
  refine ⟨⟨hscheme, huser, huser'⟩, ?_, fun h => ?_⟩
  · simpa using ((shown_by_password_iff hscheme huser huser' "a" "b:c").1 "" "").mpr (by decide)
  · have hpart : shownPart "a@b" = shownPart "a@c" :=
      ((shown_by_password_iff hscheme huser huser' "a@b" "a@c").1 "" "").mp (by rw [h])
    exact absurd hpart (by decide)

/-- A password is shown from its first at sign on. -/
theorem password_behind_at_sign :
    redacted "mysql://root:a@b@db/app" = "mysql://root:***@b@db/app" ∧
      redacted "mysql://root:a@b@db/app" ≠ redacted "mysql://root:a@c@db/app" := by
  decide

end Url

end TableGate
