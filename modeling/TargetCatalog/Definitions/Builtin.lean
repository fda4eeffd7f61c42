import TargetCatalog.Definitions.Basic

/-!
# The built-in definitions

The architectures and machines that are known when there is no definitions file. Architectures come
in the order in which they build on each other; in a machine, `a|b|` lets `a`, `b` or nothing be
chosen.
-/

namespace TargetCatalog.Definitions

/-- Flags that two compilers have in common, and those of the third, which may have none. -/
def flagsFor (gnuAndClang msvc : List String) : FlagTable :=
  .ofList <| [("gnu", gnuAndClang), ("clang", gnuAndClang)] ++
    if msvc = [] then [] else [("msvc", msvc)]

def builtinArchs : List ArchDef := [
    { name := "generic" },
    { name := "softfp", flags := flagsFor ["-mfloat-abi=softfp"] [] },
    { name := "hardfp", flags := flagsFor ["-mfloat-abi=hard"] [] },
    { name := "neon",
      header := some "arm_neon.h",
      alignment := 16,
      checks := [⟨"neon", []⟩],
      flags := flagsFor ["-funsafe-math-optimizations"] [] },
    { name := "neonv7",
      header := some "arm_neon.h",
      alignment := 16,
      checks := [⟨"neon", []⟩],
      flags := flagsFor ["-mfpu=neon", "-funsafe-math-optimizations"] [] },
    { name := "neonv8",
      header := some "arm_neon.h",
      alignment := 16,
      checks := [⟨"neon", []⟩],
      flags := flagsFor ["-funsafe-math-optimizations"] [] },
    { name := "32", flags := flagsFor ["-m32"] [] },
    { name := "64",
      checks := [⟨"check_extended_cpuid", ["0x80000001"]⟩,
        ⟨"cpuid_x86_bit", ["3", "0x80000001", "29"]⟩],
      flags := flagsFor ["-m64"] [] },
    { name := "3dnow",
      alignment := 8,
      checks := [⟨"cpuid_x86_bit", ["3", "0x80000001", "31"]⟩],
      flags := flagsFor ["-m3dnow"] [] },
    { name := "popcount",
      checks := [⟨"cpuid_x86_bit", ["2", "0x00000001", "23"]⟩],
      flags := flagsFor ["-mpopcnt"] ["/arch:AVX"] },
    { name := "mmx",
      header := some "mmintrin.h",
      alignment := 8,
      checks := [⟨"cpuid_x86_bit", ["3", "0x00000001", "23"]⟩],
      flags := flagsFor ["-mmmx"] ["/arch:SSE"] },
    { name := "orc", environment := some "orc" },
    { name := "sse",
      header := some "xmmintrin.h",
      alignment := 16,
      checks := [⟨"cpuid_x86_bit", ["3", "0x00000001", "25"]⟩],
      flags := flagsFor ["-msse"] ["/arch:SSE"] },
    { name := "sse2",
      header := some "emmintrin.h",
      alignment := 16,
      checks := [⟨"cpuid_x86_bit", ["3", "0x00000001", "26"]⟩],
      flags := flagsFor ["-msse2"] ["/arch:SSE2"] },
    { name := "sse3",
      header := some "pmmintrin.h",
      alignment := 16,
      checks := [⟨"cpuid_x86_bit", ["2", "0x00000001", "0"]⟩],
      flags := flagsFor ["-msse3"] ["/arch:AVX"] },
    { name := "ssse3",
      header := some "tmmintrin.h",
      alignment := 16,
      checks := [⟨"cpuid_x86_bit", ["2", "0x00000001", "9"]⟩],
      flags := flagsFor ["-mssse3"] ["/arch:AVX"] },
    { name := "sse4_1",
      header := some "smmintrin.h",
      alignment := 16,
      checks := [⟨"cpuid_x86_bit", ["2", "0x00000001", "19"]⟩],
      flags := flagsFor ["-msse4.1"] ["/arch:AVX"] },
    { name := "sse4_2",
      header := some "nmmintrin.h",
      alignment := 16,
      checks := [⟨"cpuid_x86_bit", ["2", "0x00000001", "20"]⟩],
      flags := flagsFor ["-msse4.2"] ["/arch:AVX"] },
    { name := "avx",
      header := some "immintrin.h",
      alignment := 32,
      checks := [⟨"cpuid_x86_bit", ["2", "0x00000001", "28"]⟩, ⟨"get_avx_enabled", []⟩],
      flags := flagsFor ["-mavx"] ["/arch:AVX"] },
    { name := "fma",
      header := some "immintrin.h",
      alignment := 32,
      checks := [⟨"cpuid_x86_bit", ["2", "0x00000001", "12"]⟩],
      flags := flagsFor ["-mfma"] ["/arch:AVX2"] },
    { name := "avx2",
      header := some "immintrin.h",
      alignment := 32,
      checks := [⟨"cpuid_count_x86_bit", ["7", "0", "1", "5"]⟩, ⟨"get_avx2_enabled", []⟩],
      flags := flagsFor ["-mavx2"] ["/arch:AVX2"] },
    { name := "avx512f",
      header := some "immintrin.h",
      alignment := 64,
      checks := [⟨"cpuid_count_x86_bit", ["7", "0", "1", "16"]⟩, ⟨"get_avx512_enabled", []⟩],
      flags := flagsFor ["-mavx512f"] ["/arch:AVX512"] },
    { name := "avx512cd",
      header := some "immintrin.h",
      alignment := 64,
      checks := [⟨"cpuid_count_x86_bit", ["7", "0", "1", "28"]⟩, ⟨"get_avx512_enabled", []⟩],
      flags := flagsFor ["-mavx512cd"] ["/arch:AVX512"] }
  ]

def builtinMachines : List MachineDef := [
    ⟨"generic", .words "generic orc|"⟩,
    ⟨"neon", .words "generic neon orc|"⟩,
    ⟨"neonv7", .words "generic neon softfp|hardfp neonv7 orc|"⟩,
    ⟨"neonv8", .words "generic neon neonv8"⟩,
    ⟨"sse2", .words "generic 32|64| mmx| sse sse2 orc|"⟩,
    ⟨"sse3", .words "generic 32|64| mmx| sse sse2 sse3 orc|"⟩,
    ⟨"ssse3", .words "generic 32|64| mmx| sse sse2 sse3 ssse3 orc|"⟩,
    ⟨"sse4_a", .words "generic 32|64| mmx| sse sse2 sse3 popcount orc|"⟩,
    ⟨"sse4_1", .words "generic 32|64| mmx| sse sse2 sse3 ssse3 sse4_1 orc|"⟩,
    ⟨"sse4_2", .words "generic 32|64| mmx| sse sse2 sse3 ssse3 sse4_1 sse4_2 popcount orc|"⟩,
    ⟨"avx", .words "generic 32|64| mmx| sse sse2 sse3 ssse3 sse4_1 sse4_2 popcount avx orc|"⟩,
    ⟨"avx2",
      .words "generic 32|64| mmx| sse sse2 sse3 ssse3 sse4_1 sse4_2 popcount avx fma avx2 orc|"⟩,
    ⟨"avx512f",
      .words <| "generic 32|64| mmx| sse sse2 sse3 ssse3 sse4_1 sse4_2 popcount " ++
        "avx fma avx2 avx512f orc|"⟩,
    ⟨"avx512cd",
      .words <| "generic 32|64| mmx| sse sse2 sse3 ssse3 sse4_1 sse4_2 popcount " ++
        "avx fma avx2 avx512f avx512cd orc|"⟩
  ]

def builtin : Definitions :=
  ⟨builtinArchs, builtinMachines⟩

end TargetCatalog.Definitions
