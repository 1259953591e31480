/-
# The names of the shared objects

The core, the stack process and the probe find each other by name only, and each
computes the names itself from the instance it was given. All of them format the
name in the same way into buffers of one size. The core alone copies the instance
first, into a smaller buffer, and has its own idea of what an empty one stands for.
A text here has one character for each byte.
-/

import SoftPlc.Ipc.Shm

namespace SoftPlc.Adapters

open SoftPlc.Posix SoftPlc.Ipc

/-- `EIP_SHM_NAME_MAX` and `EIP_SCANNER_SHM_NAME_MAX`. -/
def eipShmNameMax : ℕ := 128

/-- `EIP_INSTANCE_MAX` and `EIP_SCANNER_INSTANCE_MAX`. -/
def eipInstanceMax : ℕ := 32

/-- What an instance is called in a name. -/
def shownInstance (instanceName : List Char) : List Char :=
  if instanceName = [] then "default".toList else instanceName

/-- How every name begins. -/
def objectLead : List Char := "/softplc.".toList

/-- The text of a name: the instance between two fixed parts, and a suffix. -/
def objectText (kind suffix shown : List Char) : List Char :=
  objectLead ++ shown ++ kind ++ suffix

/-- `build` of either role. -/
def build (kind : List Char) (bufLen : ℕ) (instanceName suffix : List Char) : Name :=
  snprintf bufLen (objectText kind suffix (shownInstance instanceName))

def eipShmName (bufLen : ℕ) (instanceName : List Char) : Name :=
  build ".eip".toList bufLen instanceName "".toList

def eipSemReqName (bufLen : ℕ) (instanceName : List Char) : Name :=
  build ".eip".toList bufLen instanceName ".req".toList

def eipSemRspName (bufLen : ℕ) (instanceName : List Char) : Name :=
  build ".eip".toList bufLen instanceName ".rsp".toList

def eipScannerShmName (bufLen : ℕ) (instanceName : List Char) : Name :=
  build ".eipscan".toList bufLen instanceName "".toList

def eipScannerSemReqName (bufLen : ℕ) (instanceName : List Char) : Name :=
  build ".eipscan".toList bufLen instanceName ".req".toList

def eipScannerSemRspName (bufLen : ℕ) (instanceName : List Char) : Name :=
  build ".eipscan".toList bufLen instanceName ".rsp".toList

/-! ## The three parties -/

inductive EipRole
  | adapter
  | scanner
  deriving DecidableEq, Repr

/-- The region and the two semaphores. -/
structure ObjectNames where
  shm : Name
  req : Name
  rsp : Name
  deriving DecidableEq, Repr

def ObjectNames.Distinct (names : ObjectNames) : Prop :=
  names.shm ≠ names.req ∧ names.shm ≠ names.rsp ∧ names.req ≠ names.rsp

/-- The instance that `proxy_open` keeps. A null text counts as an empty one. -/
def proxyInstance (endpoint name : List Char) : List Char :=
  snprintf eipInstanceMax
    (if endpoint ≠ [] then endpoint else if name ≠ [] then name else "default".toList)

/-- The names that `proxy_open` creates. -/
def proxyOpenNames (role : EipRole) (endpoint name : List Char) : ObjectNames :=
  let kept := proxyInstance endpoint name
  match role with
  | .adapter =>
      { shm := eipShmName eipShmNameMax kept
        req := eipSemReqName eipShmNameMax kept
        rsp := eipSemRspName eipShmNameMax kept }
  | .scanner =>
      { shm := eipScannerShmName eipShmNameMax kept
        req := eipScannerSemReqName eipShmNameMax kept
        rsp := eipScannerSemRspName eipShmNameMax kept }

/-- The names that `attach` and `main` of the stack process look up. -/
def stackMainNames (role : EipRole) (instanceName : List Char) : ObjectNames :=
  match role with
  | .adapter =>
      { shm := eipShmName eipShmNameMax instanceName
        req := eipSemReqName eipShmNameMax instanceName
        rsp := eipSemRspName eipShmNameMax instanceName }
  | .scanner =>
      { shm := eipScannerShmName eipShmNameMax instanceName
        req := eipScannerSemReqName eipShmNameMax instanceName
        rsp := eipScannerSemRspName eipShmNameMax instanceName }

/-- The name that `print_adapter` or `print_scanner` looks up. -/
def printStatusName (role : EipRole) (instanceName : List Char) : Name :=
  match role with
  | .adapter => eipShmName eipShmNameMax instanceName
  | .scanner => eipScannerShmName eipShmNameMax instanceName

/-! ## When they agree -/

/-- The names of an instance that is called `shown`. -/
def namesOf (kind shown : List Char) : ObjectNames where
  shm := snprintf eipShmNameMax (objectText kind [] shown)
  req := snprintf eipShmNameMax (objectText kind ".req".toList shown)
  rsp := snprintf eipShmNameMax (objectText kind ".rsp".toList shown)

def EipRole.kind : EipRole → List Char
  | .adapter => ".eip".toList
  | .scanner => ".eipscan".toList

theorem EipRole.kind_length (role : EipRole) : role.kind.length ≤ 8 := by
  cases role <;> decide

theorem stackMainNames_eq (role : EipRole) (instanceName : List Char) :
    stackMainNames role instanceName = namesOf role.kind (shownInstance instanceName) := by
  cases role <;> rfl

theorem proxyOpenNames_eq (role : EipRole) (endpoint name : List Char) :
    proxyOpenNames role endpoint name =
      namesOf role.kind (shownInstance (proxyInstance endpoint name)) := by
  cases role <;> rfl

theorem printStatusName_eq (role : EipRole) (instanceName : List Char) :
    printStatusName role instanceName = (stackMainNames role instanceName).shm := by
  cases role <;> rfl

theorem objectText_length (kind suffix shown : List Char) :
    (objectText kind suffix shown).length = 9 + shown.length + kind.length + suffix.length := by
  have hlead : objectLead.length = 9 := by decide
  rw [objectText, List.length_append, List.length_append, List.length_append, hlead]

/-- A text that fits its buffer is not cut. -/
theorem snprintf_of_fits {size : ℕ} {text : List Char} (hfits : text.length < size) :
    snprintf size text = text :=
  List.take_of_length_le (Nat.le_sub_one_of_lt hfits)

section Short

variable {kind shown : List Char} (hkind : kind.length ≤ 8) (hshown : shown.length ≤ 31)

include hkind hshown

theorem objectText_fits {suffix : List Char} (hsuffix : suffix.length ≤ 4) :
    snprintf eipShmNameMax (objectText kind suffix shown) = objectText kind suffix shown := by
  apply snprintf_of_fits
  rw [objectText_length, eipShmNameMax]
  omega

/-- Names that are not cut differ in their suffixes. -/
theorem namesOf_distinct : (namesOf kind shown).Distinct := by
  have hcut {first second : List Char} (hfirst : first.length ≤ 4) (hsecond : second.length ≤ 4)
      (hne : first ≠ second) :
      snprintf eipShmNameMax (objectText kind first shown) ≠
        snprintf eipShmNameMax (objectText kind second shown) := by
    rw [objectText_fits hkind hshown hfirst, objectText_fits hkind hshown hsecond]
    exact fun hsame => hne (List.append_cancel_left hsame)
  exact ⟨hcut (by decide) (by decide) (by decide), hcut (by decide) (by decide) (by decide),
    hcut (by decide) (by decide) (by decide)⟩

/-- A name that is not cut determines the instance, also against names that are. -/
theorem namesOf_inj {other : List Char} (hsame : namesOf kind shown = namesOf kind other) :
    shown = other := by
  have hshm := congrArg ObjectNames.shm hsame
  simp only [namesOf] at hshm
  have hnil : ([] : List Char).length ≤ 4 := Nat.zero_le 4
  rw [objectText_fits hkind hshown hnil] at hshm
  have hlength := congrArg List.length hshm
  rw [snprintf, List.length_take, objectText_length, objectText_length, eipShmNameMax] at hlength
  simp only [List.length_nil] at hlength
  have hother : (objectText kind [] other).length < eipShmNameMax := by
    rw [objectText_length, eipShmNameMax, List.length_nil]
    omega
  rw [snprintf_of_fits hother] at hshm
  simp only [objectText, List.append_nil] at hshm
  exact List.append_cancel_left (List.append_cancel_right hshm)

end Short

/-- What the core calls the instance. It is never empty. -/
theorem shownInstance_proxyInstance (endpoint name : List Char) :
    shownInstance (proxyInstance endpoint name) = proxyInstance endpoint name := by
  have hchosen : (if endpoint ≠ [] then endpoint
      else if name ≠ [] then name else "default".toList) ≠ [] := by
    split_ifs with hendpoint hname
    · exact hendpoint
    · exact hname
    · decide
  have hkept : proxyInstance endpoint name ≠ [] := by
    rw [proxyInstance, snprintf, Ne, List.take_eq_nil_iff]
    exact not_or.mpr ⟨by decide, hchosen⟩
  rw [shownInstance, if_neg hkept]

theorem proxyInstance_length (endpoint name : List Char) :
    (proxyInstance endpoint name).length ≤ 31 :=
  List.length_take_le ..

/-- The core and the others call the instance the same. -/
theorem proxyInstance_eq_iff (instanceName name : List Char) :
    proxyInstance instanceName name = shownInstance instanceName ↔
      instanceName.length ≤ 31 ∧
        (instanceName = [] → name = [] ∨ name = "default".toList) := by
  by_cases hempty : instanceName = []
  · have hdefault : "default".toList.take 31 = "default".toList := by decide
    have hlength : "default".toList.length = 7 := by decide
    subst hempty
    by_cases hname : name = []
    · simp [proxyInstance, shownInstance, snprintf, eipInstanceMax, hname]
    · simp only [proxyInstance, shownInstance, snprintf, eipInstanceMax, hname, ne_eq,
        not_true_eq_false, not_false_eq_true, if_true, if_false, List.length_nil, Nat.zero_le,
        true_and, false_or, forall_const]
      constructor
      · intro hsame
        have hshort : name.length ≤ 31 := by
          have hcut := congrArg List.length hsame
          rw [List.length_take, hlength] at hcut
          omega
        rwa [List.take_of_length_le hshort] at hsame
      · rintro rfl
        exact hdefault
  · simp [proxyInstance, shownInstance, snprintf, eipInstanceMax, hempty]

/-- **Who finds the objects.** The names that the core creates are those that the
stack process and the probe look up, and the three names differ on either side,
exactly when the instance is not longer than 31 bytes and, if it is empty, the core
falls back on the same default. -/
theorem names_agree_iff (role : EipRole) (instanceName name : List Char) :
    (proxyOpenNames role instanceName name = stackMainNames role instanceName ∧
      printStatusName role instanceName = (proxyOpenNames role instanceName name).shm ∧
      (proxyOpenNames role instanceName name).Distinct ∧
      (stackMainNames role instanceName).Distinct) ↔
    instanceName.length ≤ 31 ∧ (instanceName = [] → name = [] ∨ name = "default".toList) := by
  have hshort := proxyInstance_length instanceName name
  have hcore : proxyOpenNames role instanceName name =
      namesOf role.kind (proxyInstance instanceName name) := by
    rw [proxyOpenNames_eq, shownInstance_proxyInstance]
  rw [← proxyInstance_eq_iff, printStatusName_eq]
  constructor
  · rintro ⟨hsame, -⟩
    rw [hcore, stackMainNames_eq] at hsame
    exact namesOf_inj role.kind_length hshort hsame
  · intro hshown
    have hsame : proxyOpenNames role instanceName name = stackMainNames role instanceName := by
      rw [hcore, stackMainNames_eq, hshown]
    have hdistinct : (proxyOpenNames role instanceName name).Distinct := by
      rw [hcore]
      exact namesOf_distinct role.kind_length hshort
    exact ⟨hsame, by rw [hsame], hdistinct, hsame ▸ hdistinct⟩

/-- Thirty-two bytes: the core cuts the last one. -/
def longInstance : List Char := "packaging-line-07-palletizer-esd".toList

theorem longInstance_names_differ :
    proxyOpenNames .adapter longInstance "ethernet-ip".toList ≠
      stackMainNames .adapter longInstance := by
  decide

end SoftPlc.Adapters
