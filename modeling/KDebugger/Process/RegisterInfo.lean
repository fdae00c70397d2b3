import KDebugger.Computation
import Mathlib.Algebra.GroupWithZero.Nat
import Mathlib.Data.Int.Notation

namespace KDebugger

/-- The members of `user_regs_struct` that are registers of the debugger. -/
inductive Gpr where
  | rax | rdx | rcx | rbx | rsi | rdi | rbp | rsp | r8 | r9 | r10 | r11 | r12 | r13 | r14 | r15
  | rip | eflags | cs | fs | gs | ss | ds | es | origRax
deriving DecidableEq, Repr

/-- `GPR_OFFSET`. -/
def Gpr.offset : Gpr → ℕ
  | r15 => 0 | r14 => 8 | r13 => 16 | r12 => 24 | rbp => 32 | rbx => 40 | r11 => 48 | r10 => 56
  | r9 => 64 | r8 => 72 | rax => 80 | rcx => 88 | rdx => 96 | rsi => 104 | rdi => 112
  | origRax => 120 | rip => 128 | cs => 136 | eflags => 144 | rsp => 152 | ss => 160 | ds => 184
  | es => 192 | fs => 200 | gs => 208

/-- The control members of `user_fpregs_struct`. -/
inductive FpControl where
  | fcw | fsw | ftw | fop | frip | frdp | mxcsr | mxcsrmask
deriving DecidableEq, Repr

instance neZero_debugRegisters : NeZero 8 := ⟨by decide⟩

/-- `register_id`, by the macro that defines the register. -/
inductive RegisterId where
  | gpr64 (r : Gpr)
  | gpr32 (super : Gpr)
  | gpr16 (super : Gpr)
  | gpr8h (super : Gpr)
  | gpr8l (super : Gpr)
  | fpr (r : FpControl)
  | st (n : Fin 8)
  | mm (n : Fin 8)
  | xmm (n : Fin 16)
  | dr (n : Fin 8)
deriving DecidableEq, Repr

inductive RegisterType where
  | gpr | subGpr | fpr | dr
deriving DecidableEq, Repr

inductive RegisterFormat where
  | uint | doubleFloat | longDouble | vector
deriving DecidableEq, Repr

structure RegisterInfo where
  id : RegisterId
  dwarfId : ℤ
  size : ℕ
  offset : ℕ
  type : RegisterType
  format : RegisterFormat
deriving DecidableEq, Repr

/-- `offsetof(user, i387)`. -/
def i387Offset : ℕ := 224

def i387Size : ℕ := 512

def regsSize : ℕ := 216

def debugregOffset : ℕ := 848

def userSize : ℕ := 912

/-- A part of a `struct user` that a request writes: a word, `i387` or `regs`. -/
inductive UserPart where
  | word (offset : ℕ)
  | fprs
  | gprs
deriving DecidableEq, Repr

def UserPart.Covers : UserPart → ℕ → Prop
  | word offset, o => offset ≤ o ∧ o < offset + 8
  | fprs, o => i387Offset ≤ o ∧ o < i387Offset + i387Size
  | gprs, o => o < regsSize

instance (part : UserPart) : DecidablePred part.Covers := fun _ => by
  cases part <;> unfold UserPart.Covers <;> infer_instance

def defineGpr64 (r : Gpr) (dwarfId : ℤ) : RegisterInfo :=
  ⟨.gpr64 r, dwarfId, 8, r.offset, .gpr, .uint⟩

def defineGpr32 (super : Gpr) : RegisterInfo := ⟨.gpr32 super, -1, 4, super.offset, .subGpr, .uint⟩

def defineGpr16 (super : Gpr) : RegisterInfo := ⟨.gpr16 super, -1, 2, super.offset, .subGpr, .uint⟩

def defineGpr8H (super : Gpr) : RegisterInfo :=
  ⟨.gpr8h super, -1, 1, super.offset + 1, .subGpr, .uint⟩

def defineGpr8L (super : Gpr) : RegisterInfo := ⟨.gpr8l super, -1, 1, super.offset, .subGpr, .uint⟩

/-- `DEFINE_FPR`, with the size and the offset of the member. -/
def defineFpr (r : FpControl) (dwarfId : ℤ) (size offset : ℕ) : RegisterInfo :=
  ⟨.fpr r, dwarfId, size, i387Offset + offset, .fpr, .uint⟩

def defineFpSt (n : Fin 8) : RegisterInfo :=
  ⟨.st n, 33 + n, 16, i387Offset + 32 + n * 16, .fpr, .longDouble⟩

def defineFpMm (n : Fin 8) : RegisterInfo :=
  ⟨.mm n, 41 + n, 8, i387Offset + 32 + n * 16, .fpr, .vector⟩

def defineFpXmm (n : Fin 16) : RegisterInfo :=
  ⟨.xmm n, 17 + n, 16, i387Offset + 160 + n * 16, .fpr, .vector⟩

def defineDr (n : Fin 8) : RegisterInfo := ⟨.dr n, -1, 8, debugregOffset + n * 8, .dr, .uint⟩

/-- `g_register_infos`, in the order of `registers.inc`. -/
def gRegisterInfos : List RegisterInfo :=
  [defineGpr64 .rax 0, defineGpr64 .rdx 1, defineGpr64 .rcx 2, defineGpr64 .rbx 3,
    defineGpr64 .rsi 4, defineGpr64 .rdi 5, defineGpr64 .rbp 6, defineGpr64 .rsp 7,
    defineGpr64 .r8 8, defineGpr64 .r9 9, defineGpr64 .r10 10, defineGpr64 .r11 11,
    defineGpr64 .r12 12, defineGpr64 .r13 13, defineGpr64 .r14 14, defineGpr64 .r15 15,
    defineGpr64 .rip 16, defineGpr64 .eflags 49, defineGpr64 .cs 51, defineGpr64 .fs 54,
    defineGpr64 .gs 55, defineGpr64 .ss 52, defineGpr64 .ds 53, defineGpr64 .es 50,
    defineGpr64 .origRax (-1)] ++
  [Gpr.rax, .rdx, .rcx, .rbx, .rsi, .rdi, .r8, .r9, .r10, .r11, .r12, .r13, .r14, .r15].map
    defineGpr32 ++
  [Gpr.rax, .rdx, .rcx, .rbx, .rsi, .rdi, .rbp, .rsp, .r8, .r9, .r10, .r11, .r12, .r13, .r14,
    .r15].map defineGpr16 ++
  [Gpr.rax, .rdx, .rcx, .rbx].map defineGpr8H ++
  [Gpr.rax, .rdx, .rcx, .rbx, .rsi, .rdi, .rbp, .rsp, .r8, .r9, .r10, .r11, .r12, .r13, .r14,
    .r15].map defineGpr8L ++
  [defineFpr .fcw 65 2 0, defineFpr .fsw 66 2 2, defineFpr .ftw (-1) 2 4, defineFpr .fop (-1) 2 6,
    defineFpr .frip (-1) 8 8, defineFpr .frdp (-1) 8 16, defineFpr .mxcsr 64 4 24,
    defineFpr .mxcsrmask (-1) 4 28] ++
  (List.finRange 8).map defineFpSt ++ (List.finRange 8).map defineFpMm ++
  (List.finRange 16).map defineFpXmm ++ (List.finRange 8).map defineDr

def registerInfoBy (f : RegisterInfo → Bool) : Except Failure RegisterInfo :=
  match gRegisterInfos.find? f with
  | none => .error (.raised "Cannot find register info")
  | some info => .ok info

def registerInfoById (id : RegisterId) : Except Failure RegisterInfo :=
  registerInfoBy fun i => i.id == id

/-- `register_info_by_dwarf`, whose parameter is an `int32_t`. -/
def registerInfoByDwarf (dwarfId : BitVec 32) : Except Failure RegisterInfo :=
  registerInfoBy fun i => i.dwarfId == dwarfId.toInt

/-- The value of an enumerator: its place in `registers.inc`. -/
def RegisterId.code (id : RegisterId) : ℕ := gRegisterInfos.findIdx fun i => i.id == id

/-- `static_cast<register_id>` of a number; other numbers have no register info. -/
def RegisterId.ofCode (code : ℤ) : Except Failure RegisterId :=
  match code with
  | .ofNat n =>
    match gRegisterInfos[n]? with
    | none => .error (.raised "Cannot find register info")
    | some info => .ok info.id
  | .negSucc _ => .error (.raised "Cannot find register info")

theorem registerInfoBy_mem {f : RegisterInfo → Bool} {info : RegisterInfo}
    (h : registerInfoBy f = .ok info) : info ∈ gRegisterInfos := by
  unfold registerInfoBy at h
  cases hfind : gRegisterInfos.find? f with
  | none => simp [hfind] at h
  | some i =>
    simp only [hfind, Except.ok.injEq] at h
    subst h
    exact List.mem_of_find?_eq_some hfind

theorem registerInfoByDwarf_ok {k : BitVec 32} {info : RegisterInfo}
    (h : registerInfoByDwarf k = .ok info) : info ∈ gRegisterInfos ∧ info.dwarfId = k.toInt := by
  refine ⟨registerInfoBy_mem h, ?_⟩
  unfold registerInfoByDwarf registerInfoBy at h
  cases hfind : gRegisterInfos.find? fun i => i.dwarfId == k.toInt with
  | none =>
    rw [hfind] at h
    cases h
  | some i =>
    rw [hfind] at h
    cases h
    simpa using List.find?_some hfind

namespace RegisterInfo

def Covers (info : RegisterInfo) (o : ℕ) : Prop := info.offset ≤ o ∧ o < info.offset + info.size

instance (info : RegisterInfo) (o : ℕ) : Decidable (info.Covers o) :=
  inferInstanceAs (Decidable (_ ∧ _))

def alignedOffset (info : RegisterInfo) : ℕ := info.offset - info.offset % 8

/-- What is handed to the kernel when the register is written: `i387` for a floating-point
register, the word around any other. -/
def part (info : RegisterInfo) : UserPart :=
  if info.type = .fpr then .fprs else .word info.alignedOffset

/-- Where a register lies: inside `i387`, or inside one word of `struct user`. -/
def Placed (info : RegisterInfo) : Prop :=
  if info.type = .fpr then
    i387Offset ≤ info.offset ∧ info.offset + info.size ≤ i387Offset + i387Size
  else info.offset % 8 + info.size ≤ 8 ∧ info.alignedOffset + 8 ≤ userSize

instance (info : RegisterInfo) : Decidable info.Placed := by
  unfold Placed
  infer_instance

theorem placed {info : RegisterInfo} (h : info ∈ gRegisterInfos) : info.Placed := by
  have hall : ∀ i ∈ gRegisterInfos, i.Placed := by decide +kernel
  exact hall info h

theorem Placed.covers {info : RegisterInfo} (h : info.Placed) {o : ℕ} (ho : info.Covers o) :
    info.part.Covers o := by
  obtain ⟨hlo, hhi⟩ := ho
  unfold Placed at h
  unfold part
  split_ifs at h ⊢
  · exact ⟨by omega, by omega⟩
  · unfold alignedOffset at h ⊢
    exact ⟨by omega, by omega⟩

end RegisterInfo

theorem registerInfoById_dr (n : Fin 8) : registerInfoById (.dr n) = .ok (defineDr n) := by
  revert n
  decide +kernel

theorem ofCode_dr (n : Fin 8) :
    RegisterId.ofCode ((RegisterId.dr 0).code + (n : ℕ)) = .ok (.dr n) := by
  revert n
  decide +kernel

theorem registerInfoById_rip : registerInfoById (.gpr64 .rip) = .ok (defineGpr64 .rip 16) := by
  decide +kernel

theorem registerInfoById_rsp : registerInfoById (.gpr64 .rsp) = .ok (defineGpr64 .rsp 7) := by
  decide +kernel

end KDebugger
