/-!
Signatures of host functions whose results may differ between nodes: transcendental functions,
clocks, reflection, randomness, raw memory and threads.
-/

namespace ContractLedger

/-- A set of method signatures that code must not refer to. -/
structure Denylist where
  signatures : List String
  distinct : signatures.Nodup

namespace Denylist

def empty : Denylist := ⟨[], .nil⟩

/-- Whether exactly this signature is denied. -/
def contains (denylist : Denylist) (signature : String) : Bool :=
  denylist.signatures.contains signature

def insert (denylist : Denylist) (signature : String) : Denylist :=
  if present : signature ∈ denylist.signatures then denylist
  else ⟨signature :: denylist.signatures, List.nodup_cons.mpr ⟨present, denylist.distinct⟩⟩

def extend (denylist : Denylist) (signatures : List String) : Denylist :=
  signatures.foldl insert denylist

def ofList (signatures : List String) : Denylist :=
  empty.extend signatures

def size (denylist : Denylist) : Nat :=
  denylist.signatures.length

/-- The signatures denied unless settings say otherwise. -/
def standardSignatures : List String :=
  ["f64 std::f64::sin(f64)",
   "f64 std::f64::cos(f64)",
   "f64 std::f64::tan(f64)",
   "f64 std::f64::asin(f64)",
   "f64 std::f64::acos(f64)",
   "f64 std::f64::atan(f64)",
   "f64 std::f64::atan2(f64,f64)",
   "f64 std::f64::sinh(f64)",
   "f64 std::f64::cosh(f64)",
   "f64 std::f64::tanh(f64)",
   "f64 std::f64::exp(f64)",
   "f64 std::f64::exp_m1(f64)",
   "f64 std::f64::ln(f64)",
   "f64 std::f64::ln_1p(f64)",
   "f64 std::f64::log(f64,f64)",
   "f64 std::f64::log10(f64)",
   "f64 std::f64::log2(f64)",
   "f64 std::f64::powf(f64,f64)",
   "f64 std::f64::powi(f64,i32)",
   "f64 std::f64::cbrt(f64)",
   "f64 std::f64::hypot(f64,f64)",
   "f64 std::f64::mul_add(f64,f64,f64)",
   "f32 std::f32::sin(f32)",
   "f32 std::f32::cos(f32)",
   "f32 std::f32::tan(f32)",
   "f32 std::f32::asin(f32)",
   "f32 std::f32::acos(f32)",
   "f32 std::f32::atan(f32)",
   "f32 std::f32::atan2(f32,f32)",
   "f32 std::f32::sinh(f32)",
   "f32 std::f32::cosh(f32)",
   "f32 std::f32::tanh(f32)",
   "f32 std::f32::exp(f32)",
   "f32 std::f32::exp_m1(f32)",
   "f32 std::f32::ln(f32)",
   "f32 std::f32::ln_1p(f32)",
   "f32 std::f32::log(f32,f32)",
   "f32 std::f32::log10(f32)",
   "f32 std::f32::log2(f32)",
   "f32 std::f32::powf(f32,f32)",
   "f32 std::f32::powi(f32,i32)",
   "f32 std::f32::cbrt(f32)",
   "f32 std::f32::hypot(f32,f32)",
   "f32 std::f32::mul_add(f32,f32,f32)",
   "std::time::SystemTime std::time::SystemTime::now()",
   "std::time::Instant std::time::Instant::now()",
   "std::time::Duration std::time::Instant::elapsed(&std::time::Instant)",
   "i32 host::time::local_offset_seconds()",
   "std::string::String host::time::time_zone_name()",
   "&str std::any::type_name()",
   "std::any::TypeId std::any::TypeId::of()",
   "std::backtrace::Backtrace std::backtrace::Backtrace::capture()",
   "u64 rand::random()",
   "rand::rngs::ThreadRng rand::thread_rng()",
   "std::collections::hash_map::RandomState std::collections::hash_map::RandomState::new()",
   "usize std::ptr::addr(*const u8)",
   "*mut u8 std::alloc::alloc(std::alloc::Layout)",
   "u32 std::process::id()",
   "std::env::Vars std::env::vars()",
   "std::thread::Thread std::thread::current()",
   "std::thread::JoinHandle std::thread::spawn(F)",
   "() std::thread::sleep(std::time::Duration)",
   "usize std::thread::available_parallelism()"]

def standard : Denylist :=
  ofList standardSignatures

end Denylist

end ContractLedger
