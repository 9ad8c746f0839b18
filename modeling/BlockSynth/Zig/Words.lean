/-! # Reserved words of Zig

Identifiers that generated Zig must not introduce: the keywords, the primitive types and values, and
the names the generated program relies on itself.
-/
namespace BlockSynth.Zig

def keywords : List String :=
  ["addrspace", "align", "allowzero", "and", "anyframe",
    "anytype", "asm", "async", "await", "break",
    "callconv", "catch", "comptime", "const", "continue", "defer", "else", "enum", "errdefer",
    "error", "export", "extern", "fn", "for", "if", "inline", "linksection", "noalias", "noinline",
    "nosuspend", "opaque", "or", "orelse", "packed", "pub", "resume", "return", "struct", "suspend",
    "switch", "test", "threadlocal", "try", "union", "unreachable", "usingnamespace", "var",
    "volatile", "while"]

def primitives : List String :=
  ["anyerror", "anyopaque", "bool", "c_char", "c_int", "c_long", "c_short", "c_uint", "c_ulong",
    "c_ushort", "comptime_float", "comptime_int", "f16", "f32", "f64", "f80", "f128", "false", "i8",
    "i16", "i32", "i64", "i128", "isize", "noreturn", "null", "true", "type", "u8", "u16", "u32",
    "u64", "u128", "undefined", "usize", "void"]

/-- Imports, the entry point and the device runtime. -/
def runtimeNames : List String :=
  ["std", "math", "debug", "main", "allocator", "c", "sen", "composeCbor", "transmitLorawan"]

def reservedWords : List String :=
  keywords ++ primitives ++ runtimeNames

def isKeyword (name : String) : Bool :=
  keywords.contains name

def isReserved (name : String) : Bool :=
  reservedWords.contains name

end BlockSynth.Zig
